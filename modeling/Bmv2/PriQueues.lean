/-
# Rate-limited queues with priorities

`QueueingLogicPriRL<T, FMap>` (`queueing.h`): every logical queue has a queue for each priority, and
a worker one heap for each.  Priority by priority the class does what `QueueingLogicRL` does
(`pushFront_atPriority`, `popBack_atPriority`), so the counters of a queue and a priority are those
of `RateQueues`.  The counters above them are kept by hand: the one of a logical queue is a sum,
the one of a worker only ever grows, and `size(queue_id, priority)` returns the one of the logical queue.

* `accounts_and_counters`: what holds in every run, and when all the counters are right.
-/
import Bmv2.RateQueues

namespace Bm

/-- `QueueingLogicPriRL::QueueInfo`. -/
structure QueueInfoPris where
  pris : List QueueInfo
  size : ℕ := 0

/-- `QueueingLogicPriRL::WorkerInfo`, with its array of heaps. -/
structure WorkerInfo (T : Type) where
  queues : List (List (QE T)) := List.replicate 32 []
  size : ℕ := 0

/-- `QueueingLogicPriRL`. -/
structure PriQueues (T : Type) where
  mapToWorker : ℕ → ℕ
  nbPriorities : ℕ
  queuesInfo : List QueueInfoPris
  workersInfo : List (WorkerInfo T)

namespace PriQueues

variable {T : Type} (q : PriQueues T)

/-- The constructor. -/
def create (nbQueues nbWorkers capacity nbPriorities now : ℕ) (mapToWorker : ℕ → ℕ) :
    PriQueues T where
  mapToWorker := mapToWorker
  nbPriorities := nbPriorities
  queuesInfo := List.replicate nbQueues
    { pris := List.replicate nbPriorities { capacity := capacity, lastSent := now } }
  workersInfo := List.replicate nbWorkers {}

/-- What the calls for one priority of a queue start with; `none` when `at` throws. -/
def infoPri (queueId priority : ℕ) : Option QueueInfo := do
  let qInfo ← q.queuesInfo[queueId]?
  let _ ← q.workersInfo[q.mapToWorker queueId]?
  qInfo.pris[priority]?

/-- `push_front`: the element that has been queued, if any; `none` when `at` throws, or when the
priority is past the array of heaps. -/
def pushFront (queueId priority : ℕ) (item : T) (now : ℕ) :
    Option (Option (QE T) × PriQueues T) := do
  let workerId := q.mapToWorker queueId
  let qInfo ← q.queuesInfo[queueId]?
  let wInfo ← q.workersInfo[workerId]?
  let qInfoPri ← qInfo.pris[priority]?
  if qInfoPri.size ≥ qInfoPri.capacity then return (none, q)
  let lastSent := RateQueues.getNextTp qInfoPri now
  let queue ← wInfo.queues[priority]?
  return (some ⟨item, queueId, lastSent⟩, { q with
    workersInfo := q.workersInfo.set workerId
      { queues := wInfo.queues.set priority (⟨item, queueId, lastSent⟩ :: queue)
        size := wInfo.size + 1 }
    queuesInfo := q.queuesInfo.set queueId
      { pris := qInfo.pris.set priority { qInfoPri with lastSent, size := qInfoPri.size + 1 }
        size := qInfo.size + 1 } })

/-- Whether the loop of `pop_back` stops at a priority: the top of its heap is due, or there is no such
heap. -/
def WorkerInfo.stops (wInfo : WorkerInfo T) (now pri : ℕ) : Bool :=
  match wInfo.queues[pri]? with
  | none => true
  | some queue => queue.any fun qe => qe.send ≤ now

/-- `pop_back` of the element at place `i` of the heap that is served, which has to be one with the
least send time; `none` while the reader waits. -/
def popBack (workerId i now : ℕ) : Option ((ℕ × QE T) × PriQueues T) := do
  let wInfo ← q.workersInfo[workerId]?
  guard (wInfo.size ≠ 0)
  let pri ← (List.range q.nbPriorities).find? (WorkerInfo.stops wInfo now)
  let queue ← wInfo.queues[pri]?
  let top ← queue[i]?
  guard (∀ qe ∈ queue, top.send ≤ qe.send)
  let qInfo ← q.queuesInfo[top.queueId]?
  let qInfoPri ← qInfo.pris[pri]?
  return ((pri, top), { q with
    -- the size of the worker stays
    workersInfo := q.workersInfo.set workerId
      { wInfo with queues := wInfo.queues.set pri (queue.eraseIdx i) }
    queuesInfo := q.queuesInfo.set top.queueId
      { pris := qInfo.pris.set pri { qInfoPri with size := qInfoPri.size - 1 }
        size := qInfo.size - 1 } })

/-- `size(queue_id)`. -/
def size (queueId : ℕ) : Option ℕ := do
  let qInfo ← q.queuesInfo[queueId]?
  let _ ← q.workersInfo[q.mapToWorker queueId]?
  return qInfo.size

/-- `size(queue_id, priority)`. -/
def sizePri (queueId priority : ℕ) : Option ℕ := do
  let qInfo ← q.queuesInfo[queueId]?
  let _ ← qInfo.pris[priority]?
  let _ ← q.workersInfo[q.mapToWorker queueId]?
  return qInfo.size

/-- `for_each_q`. -/
def forEachQ (queueId : ℕ) (fn : QueueInfo → QueueInfo) : Option (PriQueues T) := do
  let qInfo ← q.queuesInfo[queueId]?
  let _ ← q.workersInfo[q.mapToWorker queueId]?
  return { q with queuesInfo := q.queuesInfo.set queueId { qInfo with pris := qInfo.pris.map fn } }

/-- `for_one_q`. -/
def forOneQ (queueId priority : ℕ) (fn : QueueInfo → QueueInfo) : Option (PriQueues T) := do
  let qInfo ← q.queuesInfo[queueId]?
  let _ ← q.workersInfo[q.mapToWorker queueId]?
  let qInfoPri ← qInfo.pris[priority]?
  return { q with
    queuesInfo := q.queuesInfo.set queueId { qInfo with pris := qInfo.pris.set priority (fn qInfoPri) } }

/-- `SetCapacityFn`. -/
def setCapacityFn (c : ℕ) (info : QueueInfo) : QueueInfo := { info with capacity := c }

/-- `SetRateFn`, with the delay that is computed from the rate. -/
def setRateFn (pktDelayTicks : ℕ) (info : QueueInfo) : QueueInfo := { info with pktDelayTicks }

/-- `set_capacity` of all the priorities of a queue. -/
def setCapacity (queueId c : ℕ) : Option (PriQueues T) := q.forEachQ queueId (setCapacityFn c)

/-- `set_capacity` of one priority. -/
def setCapacityPri (queueId priority c : ℕ) : Option (PriQueues T) :=
  q.forOneQ queueId priority (setCapacityFn c)

/-- `set_rate` of all the priorities of a queue. -/
def setRate (queueId pktDelayTicks : ℕ) : Option (PriQueues T) :=
  q.forEachQ queueId (setRateFn pktDelayTicks)

/-- `set_rate` of one priority. -/
def setRatePri (queueId priority pktDelayTicks : ℕ) : Option (PriQueues T) :=
  q.forOneQ queueId priority (setRateFn pktDelayTicks)

/-! ## One priority -/

/-- The queues of one priority. -/
def atPriority (p : ℕ) : RateQueues T where
  mapToWorker := q.mapToWorker
  queuesInfo := q.queuesInfo.map fun qInfo => (qInfo.pris[p]?).getD {}
  workersInfo := q.workersInfo.map fun wInfo => (wInfo.queues[p]?).getD []

section AtPriority

variable {q} {q' : PriQueues T} {queueId priority workerId i now p : ℕ} {item : T}

/-- What is written at one place of a list is not seen at another. -/
theorem getD_set_of_ne {α : Type} (l : List α) {j : ℕ} (h : j ≠ p) (x d : α) :
    ((l.set j x)[p]?).getD d = (l[p]?).getD d := by
  rw [List.getElem?_set_ne h]

theorem getD_set_self {α : Type} {l : List α} {a : α} (h : l[p]? = some a) (x d : α) :
    ((l.set p x)[p]?).getD d = x := by
  rw [List.getElem?_set_self (List.getElem?_eq_some_iff.mp h).1, Option.getD_some]

/-- Writing what is there. -/
theorem set_map_eq {α β : Type} {f : α → β} {l : List α} {j : ℕ} {a x : α} (h : l[j]? = some a)
    (hf : f x = f a) : (l.set j x).map f = l.map f := by
  obtain ⟨hj, rfl⟩ := List.getElem?_eq_some_iff.mp h
  rw [List.map_set, hf, ← List.getElem_map f (h := by rwa [List.length_map]), List.set_getElem_self]

/-- What an accepted `push_front` reads and writes. -/
structure Pushed (q q' : PriQueues T) (priority : ℕ) (qe : QE T) (now : ℕ) (qInfo : QueueInfoPris)
    (wInfo : WorkerInfo T) (qInfoPri : QueueInfo) (queue : List (QE T)) : Prop where
  hasQueue : q.queuesInfo[qe.queueId]? = some qInfo
  hasWorker : q.workersInfo[q.mapToWorker qe.queueId]? = some wInfo
  hasPri : qInfo.pris[priority]? = some qInfoPri
  hasHeap : wInfo.queues[priority]? = some queue
  room : qInfoPri.size < qInfoPri.capacity
  send : qe.send = RateQueues.getNextTp qInfoPri now
  result : q' = { q with
    workersInfo := q.workersInfo.set (q.mapToWorker qe.queueId)
      { queues := wInfo.queues.set priority (qe :: queue), size := wInfo.size + 1 }
    queuesInfo := q.queuesInfo.set qe.queueId
      { pris := qInfo.pris.set priority { qInfoPri with lastSent := qe.send, size := qInfoPri.size + 1 }
        size := qInfo.size + 1 } }

theorem pushFront_cases {res : Option (QE T)}
    (h : q.pushFront queueId priority item now = some (res, q')) :
    (res = none ∧ q' = q ∧ ∃ qInfoPri, q.infoPri queueId priority = some qInfoPri ∧
      qInfoPri.capacity ≤ qInfoPri.size) ∨
    ∃ qe qInfo wInfo qInfoPri queue, res = some qe ∧ qe.e = item ∧ qe.queueId = queueId ∧
      q.Pushed q' priority qe now qInfo wInfo qInfoPri queue := by
  obtain ⟨qInfo, hqInfo, h⟩ := Option.bind_eq_some_iff.mp h
  obtain ⟨wInfo, hwInfo, h⟩ := Option.bind_eq_some_iff.mp h
  obtain ⟨qInfoPri, hpri, h⟩ := Option.bind_eq_some_iff.mp h
  split at h
  next hfull =>
    cases h
    refine .inl ⟨rfl, rfl, qInfoPri, ?_, hfull⟩
    rw [infoPri, hqInfo, Option.bind_eq_bind, Option.bind_some, hwInfo]
    exact hpri
  next hroom =>
    obtain ⟨queue, hqueue, h⟩ := Option.bind_eq_some_iff.mp h
    cases h
    exact .inr ⟨_, qInfo, wInfo, qInfoPri, queue, rfl, rfl, rfl, hqInfo, hwInfo, hpri, hqueue,
      not_le.mp hroom, rfl, rfl⟩

section Pushed

variable {qe : QE T} {qInfo : QueueInfoPris} {wInfo : WorkerInfo T} {qInfoPri : QueueInfo}
  {queue : List (QE T)} (h : q.Pushed q' priority qe now qInfo wInfo qInfoPri queue)

include h

/-- **One priority.**  `push_front` is the one of `QueueingLogicRL` at the priority. -/
theorem pushFront_atPriority : (q.atPriority priority).pushFront qe.queueId qe.e now =
    some (some qe, q'.atPriority priority) := by
  have hqInfo : (q.atPriority priority).queuesInfo[qe.queueId]? = some qInfoPri := by
    rw [atPriority, List.getElem?_map, h.hasQueue, Option.map_some, h.hasPri, Option.getD_some]
  have hwInfo : (q.atPriority priority).workersInfo[(q.atPriority priority).mapToWorker qe.queueId]? =
      some queue := by
    rw [atPriority, List.getElem?_map, h.hasWorker, Option.map_some, h.hasHeap, Option.getD_some]
  rw [RateQueues.pushFront, hqInfo, Option.bind_eq_bind, Option.bind_some, hwInfo,
    Option.bind_eq_bind, Option.bind_some, if_neg (not_le.mpr h.room), ← h.send, h.result]
  simp only [atPriority, List.map_set, getD_set_self h.hasPri, getD_set_self h.hasHeap]
  rfl

/-- The other priorities see nothing of it. -/
theorem Pushed.atPriority_of_ne {p : ℕ} (hp : p ≠ priority) : q'.atPriority p = q.atPriority p := by
  rw [h.result]
  simp only [atPriority]
  rw [set_map_eq h.hasQueue (getD_set_of_ne _ (Ne.symm hp) _ _),
    set_map_eq h.hasWorker (getD_set_of_ne _ (Ne.symm hp) _ _)]

end Pushed

/-- What `pop_back` reads and writes. -/
structure Popped (q q' : PriQueues T) (workerId i priority : ℕ) (qe : QE T) (now : ℕ)
    (qInfo : QueueInfoPris) (wInfo : WorkerInfo T) (qInfoPri : QueueInfo) (queue : List (QE T)) :
    Prop where
  hasWorker : q.workersInfo[workerId]? = some wInfo
  served : (List.range q.nbPriorities).find? (WorkerInfo.stops wInfo now) = some priority
  hasHeap : wInfo.queues[priority]? = some queue
  top : queue[i]? = some qe
  least : ∀ other ∈ queue, qe.send ≤ other.send
  hasQueue : q.queuesInfo[qe.queueId]? = some qInfo
  hasPri : qInfo.pris[priority]? = some qInfoPri
  result : q' = { q with
    workersInfo := q.workersInfo.set workerId
      { wInfo with queues := wInfo.queues.set priority (queue.eraseIdx i) }
    queuesInfo := q.queuesInfo.set qe.queueId
      { pris := qInfo.pris.set priority { qInfoPri with size := qInfoPri.size - 1 }
        size := qInfo.size - 1 } }

theorem popBack_cases {qe : QE T} (h : q.popBack workerId i now = some ((priority, qe), q')) :
    ∃ qInfo wInfo qInfoPri queue,
      q.Popped q' workerId i priority qe now qInfo wInfo qInfoPri queue := by
  obtain ⟨wInfo, hwInfo, h⟩ := Option.bind_eq_some_iff.mp h
  obtain ⟨_, -, h⟩ := Option.bind_eq_some_iff.mp h
  obtain ⟨pri, hserved, h⟩ := Option.bind_eq_some_iff.mp h
  obtain ⟨queue, hqueue, h⟩ := Option.bind_eq_some_iff.mp h
  obtain ⟨top, htop, h⟩ := Option.bind_eq_some_iff.mp h
  obtain ⟨_, hleast, h⟩ := Option.bind_eq_some_iff.mp h
  obtain ⟨qInfo, hqInfo, h⟩ := Option.bind_eq_some_iff.mp h
  obtain ⟨qInfoPri, hpri, h⟩ := Option.bind_eq_some_iff.mp h
  cases h
  exact ⟨qInfo, wInfo, qInfoPri, queue, hwInfo, hserved, hqueue, htop,
    (Option.guard_eq_some' _).mp hleast, hqInfo, hpri, rfl⟩

section Popped

variable {qe : QE T} {qInfo : QueueInfoPris} {wInfo : WorkerInfo T} {qInfoPri : QueueInfo}
  {queue : List (QE T)} (h : q.Popped q' workerId i priority qe now qInfo wInfo qInfoPri queue)

include h

/-- The heap of one priority of the worker. -/
theorem Popped.heap (p : ℕ) :
    (q.atPriority p).workersInfo[workerId]? = some ((wInfo.queues[p]?).getD []) := by
  rw [atPriority, List.getElem?_map, h.hasWorker, Option.map_some]

/-- **One priority.**  `pop_back` is the one of `QueueingLogicRL` at the priority that is served. -/
theorem popBack_atPriority :
    (q.atPriority priority).popBack workerId i now = some (qe, q'.atPriority priority) := by
  have hqInfo : (q.atPriority priority).queuesInfo[qe.queueId]? = some qInfoPri := by
    rw [atPriority, List.getElem?_map, h.hasQueue, Option.map_some, h.hasPri, Option.getD_some]
  -- the top is due when anything is
  have hdue : qe.send ≤ now := by
    have hstop := List.find?_some h.served
    rw [WorkerInfo.stops, h.hasHeap, List.any_eq_true] at hstop
    obtain ⟨other, hother, hdue⟩ := hstop
    exact (h.least other hother).trans (of_decide_eq_true hdue)
  rw [RateQueues.popBack, h.heap, h.hasHeap]
  simp only [Option.bind_eq_bind, Option.bind_some, Option.getD_some, h.top]
  rw [if_pos ⟨h.least, hdue⟩, hqInfo, h.result]
  simp only [atPriority, List.map_set, getD_set_self h.hasPri, getD_set_self h.hasHeap]
  rfl

theorem Popped.atPriority_of_ne {p : ℕ} (hp : p ≠ priority) : q'.atPriority p = q.atPriority p := by
  rw [h.result]
  simp only [atPriority]
  rw [set_map_eq h.hasQueue (getD_set_of_ne _ (Ne.symm hp) _ _),
    set_map_eq h.hasWorker (getD_set_of_ne _ (Ne.symm hp) _ _)]

/-- **Priorities.**  Nothing is due at a higher priority. -/
theorem Popped.highest {p : ℕ} (hp : p < priority) {other : QE T}
    (hother : other ∈ (q.atPriority p).items workerId) : now < other.send := by
  have hnot := (List.find?_range_eq_some.mp h.served).2.2 p hp
  rw [RateQueues.items_of_getElem? (h.heap p)] at hother
  rw [WorkerInfo.stops] at hnot
  cases hqueue : wInfo.queues[p]? with
  | none =>
    rw [hqueue] at hother
    exact absurd hother List.not_mem_nil
  | some queue =>
    rw [hqueue, Option.getD_some] at hother
    simp only [hqueue, Bool.not_eq_true', List.any_eq_false, decide_eq_true_eq] at hnot
    exact not_le.mp (hnot other hother)

end Popped

/-- What `set_rate` and `set_capacity` write. -/
theorem adjust_cases {fn : QueueInfo → QueueInfo} (hfn : ∀ info : QueueInfo,
    (fn info).size = info.size ∧ (fn info).lastSent = info.lastSent)
    (h : q.forEachQ queueId fn = some q' ∨ ∃ priority, q.forOneQ queueId priority fn = some q') :
    ∃ qInfo pris, q.queuesInfo[queueId]? = some qInfo ∧ pris.length = qInfo.pris.length ∧
      pris.map QueueInfo.size = qInfo.pris.map QueueInfo.size ∧
      q' = { q with queuesInfo := q.queuesInfo.set queueId { qInfo with pris } } := by
  rcases h with h | ⟨priority, h⟩
  · obtain ⟨qInfo, hqInfo, h⟩ := Option.bind_eq_some_iff.mp h
    obtain ⟨wInfo, -, h⟩ := Option.bind_eq_some_iff.mp h
    cases h
    refine ⟨qInfo, _, hqInfo, List.length_map _, ?_, rfl⟩
    rw [List.map_map]
    exact List.map_congr_left fun info _ => (hfn info).1
  · obtain ⟨qInfo, hqInfo, h⟩ := Option.bind_eq_some_iff.mp h
    obtain ⟨wInfo, -, h⟩ := Option.bind_eq_some_iff.mp h
    obtain ⟨qInfoPri, hpri, h⟩ := Option.bind_eq_some_iff.mp h
    cases h
    exact ⟨qInfo, _, hqInfo, List.length_set, set_map_eq hpri (hfn qInfoPri).1, rfl⟩

/-- What `set_rate` and `set_capacity` do to one priority. -/
theorem forEachQ_atPriority {fn : QueueInfo → QueueInfo} (hfn : ∀ info : QueueInfo,
    (fn info).size = info.size ∧ (fn info).lastSent = info.lastSent)
    (h : q.forEachQ queueId fn = some q') (p : ℕ) : q'.atPriority p = q.atPriority p ∨
      ∃ info, (q.atPriority p).Adjusted (q'.atPriority p) queueId info (fn info) := by
  obtain ⟨qInfo, hqInfo, h⟩ := Option.bind_eq_some_iff.mp h
  obtain ⟨wInfo, hwInfo, h⟩ := Option.bind_eq_some_iff.mp h
  cases h
  cases hpri : qInfo.pris[p]? with
  | none =>
    left
    simp only [atPriority]
    rw [set_map_eq hqInfo (by rw [List.getElem?_map, hpri]; rfl)]
  | some info =>
    refine .inr ⟨info, ?_, (hfn info).1, (hfn info).2, rfl, ?_, rfl⟩
    · rw [atPriority, List.getElem?_map, hqInfo, Option.map_some, hpri, Option.getD_some]
    · simp only [atPriority]
      rw [List.map_set, List.getElem?_map, hpri]
      rfl

theorem forOneQ_atPriority {fn : QueueInfo → QueueInfo} (hfn : ∀ info : QueueInfo,
    (fn info).size = info.size ∧ (fn info).lastSent = info.lastSent)
    (h : q.forOneQ queueId priority fn = some q') (p : ℕ) : q'.atPriority p = q.atPriority p ∨
      ∃ info, (q.atPriority p).Adjusted (q'.atPriority p) queueId info (fn info) := by
  obtain ⟨qInfo, hqInfo, h⟩ := Option.bind_eq_some_iff.mp h
  obtain ⟨wInfo, hwInfo, h⟩ := Option.bind_eq_some_iff.mp h
  obtain ⟨qInfoPri, hpri, h⟩ := Option.bind_eq_some_iff.mp h
  cases h
  by_cases hp : p = priority
  · subst hp
    refine .inr ⟨qInfoPri, ?_, (hfn qInfoPri).1, (hfn qInfoPri).2, rfl, ?_, rfl⟩
    · rw [atPriority, List.getElem?_map, hqInfo, Option.map_some, hpri, Option.getD_some]
    · simp only [atPriority]
      rw [List.map_set, getD_set_self hpri]
  · left
    simp only [atPriority]
    rw [set_map_eq hqInfo (getD_set_of_ne _ (Ne.symm hp) _ _)]

end AtPriority

/-! ## What is queued -/

/-- The elements of a queue and a priority, the newest first. -/
def present (queueId priority : ℕ) : List (QE T) := (q.atPriority priority).present queueId

/-- The number of elements of a queue, over the priorities. -/
def count (queueId : ℕ) : ℕ :=
  ∑ priority ∈ Finset.range q.nbPriorities, (q.present queueId priority).length

/-- The elements that a worker holds. -/
def held (workerId : ℕ) : List (QE T) :=
  ((q.workersInfo[workerId]?).map fun wInfo => wInfo.queues.flatten).getD []

/-- The size that a worker believes to have. -/
def workerSize (workerId : ℕ) : Option ℕ := (q.workersInfo[workerId]?).map WorkerInfo.size

/-! ## Histories -/

/-- The queues, the elements that have been accepted, with their priority and the delay that was
in force, and those that have been read, with their priority, the worker and the time. -/
structure History (T : Type) where
  queues : PriQueues T
  accepted : List (ℕ × QE T × ℕ) := []
  read : List (ℕ × ℕ × QE T × ℕ) := []

/-- A call. -/
inductive Op (T : Type) where
  | pushFront (queueId priority : ℕ) (item : T) (now : ℕ)
  | popBack (workerId i now : ℕ)
  | setRate (queueId pktDelayTicks : ℕ)
  | setRatePri (queueId priority pktDelayTicks : ℕ)
  | setCapacity (queueId c : ℕ)
  | setCapacityPri (queueId priority c : ℕ)

namespace History

/-- One call; a reader that has to wait makes its call later, and a call that throws changes
nothing. -/
def step (s : History T) : Op T → Option (History T)
  | .pushFront queueId priority item now =>
      match s.queues.pushFront queueId priority item now with
      | some (some qe, queues) =>
          some { s with
            queues
            accepted := s.accepted ++ [(priority, qe, (s.queues.atPriority priority).delay queueId)] }
      | some (none, _) => some s
      | none => if (s.queues.infoPri queueId priority).isNone then some s else none
  | .popBack workerId i now =>
      (s.queues.popBack workerId i now).map fun ((priority, qe), queues) =>
        { s with queues, read := s.read ++ [(priority, workerId, qe, now)] }
  | .setRate queueId pktDelayTicks =>
      some { s with queues := (s.queues.setRate queueId pktDelayTicks).getD s.queues }
  | .setRatePri queueId priority pktDelayTicks =>
      some { s with queues := (s.queues.setRatePri queueId priority pktDelayTicks).getD s.queues }
  | .setCapacity queueId c => some { s with queues := (s.queues.setCapacity queueId c).getD s.queues }
  | .setCapacityPri queueId priority c =>
      some { s with queues := (s.queues.setCapacityPri queueId priority c).getD s.queues }

/-- The history of one priority. -/
def atPriority (s : History T) (priority : ℕ) : RateQueues.History T where
  queues := s.queues.atPriority priority
  accepted := (s.accepted.filter fun r => r.1 = priority).map (·.2)
  read := (s.read.filter fun r => r.1 = priority).map (·.2)

/-- The elements of a queue and a priority that have been accepted. -/
def acceptedOf (s : History T) (queueId priority : ℕ) : List (QE T) :=
  ((s.atPriority priority).acceptedOf queueId).map (·.1)

/-- The elements of a queue and a priority that have been read. -/
def readOf (s : History T) (queueId priority : ℕ) : List (QE T) :=
  (s.atPriority priority).readOf queueId

/-- What a worker has read. -/
def readBy (s : History T) (workerId : ℕ) : List (ℕ × ℕ × QE T × ℕ) :=
  s.read.filter fun r => r.2.1 = workerId

/-- What one call does to the queues and to the history. -/
inductive Effect (s s' : History T) : Op T → Prop
  | quiet {op} (hsame : s' = s) : Effect s s' op
  | pushed {priority item now} (qe : QE T) (qInfo : QueueInfoPris) (wInfo : WorkerInfo T)
      (qInfoPri : QueueInfo) (queue : List (QE T))
      (hpushed : s.queues.Pushed s'.queues priority qe now qInfo wInfo qInfoPri queue)
      (haccepted : s'.accepted = s.accepted ++ [(priority, qe, qInfoPri.pktDelayTicks)])
      (hread : s'.read = s.read) : Effect s s' (.pushFront qe.queueId priority item now)
  | popped {workerId i now} (priority : ℕ) (qe : QE T) (qInfo : QueueInfoPris) (wInfo : WorkerInfo T)
      (qInfoPri : QueueInfo) (queue : List (QE T))
      (hpopped : s.queues.Popped s'.queues workerId i priority qe now qInfo wInfo qInfoPri queue)
      (haccepted : s'.accepted = s.accepted)
      (hread : s'.read = s.read ++ [(priority, workerId, qe, now)]) : Effect s s' (.popBack workerId i now)
  | adjusted {op} (queueId : ℕ) (fn : QueueInfo → QueueInfo)
      (hfn : ∀ info : QueueInfo, (fn info).size = info.size ∧ (fn info).lastSent = info.lastSent)
      (hadjusted : s.queues.forEachQ queueId fn = some s'.queues ∨
        ∃ priority, s.queues.forOneQ queueId priority fn = some s'.queues)
      (haccepted : s'.accepted = s.accepted) (hread : s'.read = s.read) : Effect s s' op

theorem delay_atPriority {q : PriQueues T} {queueId priority : ℕ} {qInfo : QueueInfoPris}
    {qInfoPri : QueueInfo} (hqueue : q.queuesInfo[queueId]? = some qInfo)
    (hpri : qInfo.pris[priority]? = some qInfoPri) :
    (q.atPriority priority).delay queueId = qInfoPri.pktDelayTicks := by
  apply RateQueues.History.delay_eq
  rw [PriQueues.atPriority, List.getElem?_map, hqueue, Option.map_some, hpri, Option.getD_some]

/-- A setter, whether it throws or not. -/
theorem effect_of_adjust {s : History T} {op : Op T} {queues? : Option (PriQueues T)} (queueId : ℕ)
    (fn : QueueInfo → QueueInfo)
    (hfn : ∀ info : QueueInfo, (fn info).size = info.size ∧ (fn info).lastSent = info.lastSent)
    (h : s.queues.forEachQ queueId fn = queues? ∨
      ∃ priority, s.queues.forOneQ queueId priority fn = queues?) :
    Effect s { s with queues := queues?.getD s.queues } op := by
  cases queues? with
  | none => exact .quiet rfl
  | some queues => exact .adjusted queueId fn hfn h rfl rfl

theorem step_effect {s s' : History T} {op : Op T} (h : s.step op = some s') : Effect s s' op := by
  cases op with
  | pushFront queueId priority item now =>
    rw [step] at h
    split at h
    next qe queues heq =>
      cases h
      rcases pushFront_cases heq with ⟨hnone, -⟩ | ⟨qe', qInfo, wInfo, pri, queue, hqe, -, rfl, hpushed⟩
      · cases hnone
      · cases hqe
        exact .pushed qe qInfo wInfo pri queue hpushed
          (by rw [delay_atPriority hpushed.hasQueue hpushed.hasPri]) rfl
    next =>
      cases h
      exact .quiet rfl
    next =>
      split at h
      · cases h
        exact .quiet rfl
      · cases h
  | popBack workerId i now =>
    obtain ⟨⟨⟨priority, qe⟩, queues⟩, hpop, rfl⟩ := Option.map_eq_some_iff.mp h
    obtain ⟨qInfo, wInfo, pri, queue, hpopped⟩ := popBack_cases hpop
    exact .popped priority qe qInfo wInfo pri queue hpopped rfl rfl
  | setRate queueId d =>
    cases h
    exact effect_of_adjust queueId (setRateFn d) (fun _ => ⟨rfl, rfl⟩) (.inl rfl)
  | setRatePri queueId priority d =>
    cases h
    exact effect_of_adjust queueId (setRateFn d) (fun _ => ⟨rfl, rfl⟩) (.inr ⟨priority, rfl⟩)
  | setCapacity queueId c =>
    cases h
    exact effect_of_adjust queueId (setCapacityFn c) (fun _ => ⟨rfl, rfl⟩) (.inl rfl)
  | setCapacityPri queueId priority c =>
    cases h
    exact effect_of_adjust queueId (setCapacityFn c) (fun _ => ⟨rfl, rfl⟩) (.inr ⟨priority, rfl⟩)

/-! ### The invariant -/

/-- Priority by priority the queues agree with the history; the counters above are sums, the one of a
worker with what the worker has read. -/
structure Inv (s : History T) : Prop where
  priority : ∀ p, (s.atPriority p).Inv
  total : ∀ (k : ℕ) (qInfo : QueueInfoPris), s.queues.queuesInfo[k]? = some qInfo →
    qInfo.pris.length = s.queues.nbPriorities ∧ qInfo.size = (qInfo.pris.map QueueInfo.size).sum
  worker : ∀ (w : ℕ) (wInfo : WorkerInfo T), s.queues.workersInfo[w]? = some wInfo →
    wInfo.size = (wInfo.queues.map List.length).sum + (s.readBy w).length
  valid : ∀ r ∈ s.accepted, r.1 < s.queues.nbPriorities
  reader : ∀ r ∈ s.read, r.2.1 < s.queues.workersInfo.length

section Steps

variable {s s' : History T}

/-- A record is added for one priority. -/
theorem filter_append_record {α : Type} (l : List (ℕ × α)) (priority : ℕ) (a : α) (p : ℕ) :
    ((l ++ [(priority, a)]).filter fun r => r.1 = p).map (·.2) =
      (l.filter fun r => r.1 = p).map (·.2) ++ if p = priority then [a] else [] := by
  rw [List.filter_append, List.map_append]
  by_cases hp : p = priority
  · rw [if_pos hp, List.filter_cons_of_pos (by simp [hp])]
    rfl
  · rw [if_neg hp, List.filter_cons_of_neg (by simpa using Ne.symm hp)]
    rfl

theorem atPriority_congr {p : ℕ} (hqueues : s'.queues.atPriority p = s.queues.atPriority p)
    (haccepted : (s'.atPriority p).accepted = (s.atPriority p).accepted)
    (hread : (s'.atPriority p).read = (s.atPriority p).read) : s'.atPriority p = s.atPriority p := by
  have hstruct : ∀ r : RateQueues.History T, r = ⟨r.queues, r.accepted, r.read⟩ := fun _ => rfl
  rw [hstruct (s'.atPriority p), hstruct (s.atPriority p), haccepted, hread]
  exact congrArg (fun queues => RateQueues.History.mk queues _ _) hqueues

/-- **Step lemma** for one priority: it takes a step of `RateQueues`, or none. -/
theorem Inv.priority_of_effect (h : s.Inv) {op : Op T} (heffect : Effect s s' op) (p : ℕ) :
    (s'.atPriority p).Inv := by
  cases heffect with
  | quiet hsame => exact hsame ▸ h.priority p
  | @pushed priority item now qe qInfo wInfo qInfoPri queue hpushed haccepted hread =>
    have hread' : (s'.atPriority p).read = (s.atPriority p).read := by
      simp only [atPriority, hread]
    by_cases hp : p = priority
    · subst hp
      rcases RateQueues.pushFront_cases (pushFront_atPriority hpushed) with
        ⟨hnone, -⟩ | ⟨qe', info, hqe, -, -, hpushed'⟩
      · cases hnone
      · cases hqe
        have hdelay := RateQueues.History.delay_eq hpushed'.info
        rw [delay_atPriority hpushed.hasQueue hpushed.hasPri] at hdelay
        refine (h.priority p).pushed hpushed' ?_ hread'
        simp only [atPriority, haccepted, filter_append_record, if_pos, hdelay]
    · rw [atPriority_congr (hpushed.atPriority_of_ne hp) ?_ hread']
      · exact h.priority p
      · simp only [atPriority, haccepted, filter_append_record, if_neg hp, List.append_nil]
  | @popped workerId i now priority qe qInfo wInfo qInfoPri queue hpopped haccepted hread =>
    have haccepted' : (s'.atPriority p).accepted = (s.atPriority p).accepted := by
      simp only [atPriority, haccepted]
    by_cases hp : p = priority
    · subst hp
      obtain ⟨info, hpopped'⟩ := RateQueues.popBack_cases (popBack_atPriority hpopped)
      refine (h.priority p).popped hpopped' haccepted' ?_
      simp only [atPriority, hread, filter_append_record, if_pos]
    · rw [atPriority_congr (hpopped.atPriority_of_ne hp) haccepted' ?_]
      · exact h.priority p
      · simp only [atPriority, hread, filter_append_record, if_neg hp, List.append_nil]
  | adjusted queueId fn hfn hadjusted haccepted hread =>
    have haccepted' : (s'.atPriority p).accepted = (s.atPriority p).accepted := by
      simp only [atPriority, haccepted]
    have hread' : (s'.atPriority p).read = (s.atPriority p).read := by
      simp only [atPriority, hread]
    have hcases : s'.queues.atPriority p = s.queues.atPriority p ∨
        ∃ info, (s.queues.atPriority p).Adjusted (s'.queues.atPriority p) queueId info (fn info) := by
      rcases hadjusted with hall | ⟨priority, hone⟩
      · exact forEachQ_atPriority hfn hall p
      · exact forOneQ_atPriority hfn hone p
    rcases hcases with hsame | ⟨info, hadjusted'⟩
    · rw [atPriority_congr hsame haccepted' hread']
      exact h.priority p
    · exact (h.priority p).adjusted hadjusted' haccepted' hread'

/-- What is read has been counted in its priority. -/
theorem Inv.size_pos (h : s.Inv) {workerId i priority now : ℕ} {qe : QE T} {qInfo : QueueInfoPris}
    {wInfo : WorkerInfo T} {qInfoPri : QueueInfo} {queue : List (QE T)}
    (hpopped : s.queues.Popped s'.queues workerId i priority qe now qInfo wInfo qInfoPri queue) :
    0 < qInfoPri.size := by
  obtain ⟨info, hpopped'⟩ := RateQueues.popBack_cases (popBack_atPriority hpopped)
  have hinfo : info = qInfoPri := by
    have hinfo := hpopped'.info
    rw [PriQueues.atPriority, List.getElem?_map, hpopped.hasQueue, Option.map_some, hpopped.hasPri,
      Option.getD_some, Option.some.injEq] at hinfo
    exact hinfo.symm
  have hmem := List.mem_of_getElem? hpopped'.top
  have hworker := (h.priority priority).worker workerId qe hmem
  have hsize := (h.priority priority).size _ _ hpopped'.info
  rw [hinfo] at hsize
  rw [hsize]
  apply List.length_pos_of_mem (a := qe)
  rw [RateQueues.present]
  refine List.mem_filter.mpr ⟨?_, by simp⟩
  show qe ∈ (s.atPriority priority).queues.items (( s.atPriority priority).queues.mapToWorker qe.queueId)
  rw [hworker]
  exact hmem

theorem Inv.total_of_effect (h : s.Inv) {op : Op T} (heffect : Effect s s' op) {k : ℕ}
    {info : QueueInfoPris} (hinfo : s'.queues.queuesInfo[k]? = some info) :
    info.pris.length = s.queues.nbPriorities ∧ info.size = (info.pris.map QueueInfo.size).sum := by
  cases heffect with
  | quiet hsame =>
    rw [hsame] at hinfo
    exact h.total k info hinfo
  | pushed qe qInfo wInfo qInfoPri queue hpushed =>
    rw [hpushed.result] at hinfo
    rcases getElem?_set_cases hinfo with ⟨-, rfl⟩ | ⟨-, hinfo⟩
    · obtain ⟨hlength, hsize⟩ := h.total _ _ hpushed.hasQueue
      have hsum := sum_map_set QueueInfo.size hpushed.hasPri
        { qInfoPri with lastSent := qe.send, size := qInfoPri.size + 1 }
      dsimp only at hsum ⊢
      exact ⟨by rw [List.length_set, hlength], by omega⟩
    · exact h.total k info hinfo
  | popped priority qe qInfo wInfo qInfoPri queue hpopped =>
    have hpos := h.size_pos hpopped
    rw [hpopped.result] at hinfo
    rcases getElem?_set_cases hinfo with ⟨-, rfl⟩ | ⟨-, hinfo⟩
    · obtain ⟨hlength, hsize⟩ := h.total _ _ hpopped.hasQueue
      have hsum := sum_map_set QueueInfo.size hpopped.hasPri
        { qInfoPri with size := qInfoPri.size - 1 }
      dsimp only at hsum ⊢
      exact ⟨by rw [List.length_set, hlength], by omega⟩
    · exact h.total k info hinfo
  | adjusted queueId fn hfn hadjusted =>
    obtain ⟨qInfo, pris, hqueue, hlength, hsizes, hresult⟩ := adjust_cases hfn hadjusted
    rw [hresult] at hinfo
    rcases getElem?_set_cases hinfo with ⟨-, rfl⟩ | ⟨-, hinfo⟩
    · rw [hlength, hsizes]
      exact h.total _ _ hqueue
    · exact h.total k info hinfo

theorem Inv.worker_of_effect (h : s.Inv) {op : Op T} (heffect : Effect s s' op) {w : ℕ}
    {info : WorkerInfo T} (hinfo : s'.queues.workersInfo[w]? = some info) :
    info.size = (info.queues.map List.length).sum + (s'.readBy w).length := by
  cases heffect with
  | quiet hsame =>
    rw [hsame] at hinfo ⊢
    exact h.worker w info hinfo
  | pushed qe qInfo wInfo qInfoPri queue hpushed haccepted hread =>
    rw [readBy, hread]
    rw [hpushed.result] at hinfo
    rcases getElem?_set_cases hinfo with ⟨rfl, rfl⟩ | ⟨-, hinfo⟩
    · have hsize := h.worker _ _ hpushed.hasWorker
      have hsum := sum_map_set List.length hpushed.hasHeap (qe :: queue)
      rw [readBy] at hsize
      rw [List.length_cons] at hsum
      dsimp only
      omega
    · exact h.worker w info hinfo
  | @popped workerId i now priority qe qInfo wInfo qInfoPri queue hpopped haccepted hread =>
    rw [readBy, hread, List.filter_append, List.length_append]
    rw [hpopped.result] at hinfo
    rcases getElem?_set_cases hinfo with ⟨rfl, rfl⟩ | ⟨hw, hinfo⟩
    · -- what leaves the heap is counted as read
      have hsize := h.worker _ _ hpopped.hasWorker
      have hsum := sum_map_set List.length hpopped.hasHeap (queue.eraseIdx i)
      have hlength := List.length_eraseIdx_add_one (List.getElem?_eq_some_iff.mp hpopped.top).1
      rw [readBy] at hsize
      rw [List.filter_cons_of_pos (by simp), List.filter_nil, List.length_singleton]
      dsimp only
      omega
    · rw [List.filter_cons_of_neg (by simpa using Ne.symm hw), List.filter_nil]
      exact h.worker w info hinfo
  | adjusted queueId fn hfn hadjusted haccepted hread =>
    obtain ⟨qInfo, pris, -, -, -, hresult⟩ := adjust_cases hfn hadjusted
    rw [hresult] at hinfo
    rw [readBy, hread]
    exact h.worker w info hinfo

theorem nbPriorities_of_effect {op : Op T} (heffect : Effect s s' op) :
    s'.queues.nbPriorities = s.queues.nbPriorities := by
  cases heffect with
  | quiet hsame => rw [hsame]
  | pushed qe qInfo wInfo qInfoPri queue hpushed => rw [hpushed.result]
  | popped priority qe qInfo wInfo qInfoPri queue hpopped => rw [hpopped.result]
  | adjusted queueId fn hfn hadjusted =>
    obtain ⟨qInfo, pris, -, -, -, hresult⟩ := adjust_cases hfn hadjusted
    rw [hresult]

theorem Inv.valid_of_effect (h : s.Inv) {op : Op T} (heffect : Effect s s' op) {r : ℕ × QE T × ℕ}
    (hr : r ∈ s'.accepted) : r.1 < s.queues.nbPriorities := by
  cases heffect with
  | quiet hsame => exact h.valid r (hsame ▸ hr)
  | pushed qe qInfo wInfo qInfoPri queue hpushed haccepted =>
    rw [haccepted] at hr
    rcases List.mem_append.mp hr with hr | hr
    · exact h.valid r hr
    · rw [List.mem_singleton.mp hr, ← (h.total _ _ hpushed.hasQueue).1]
      exact (List.getElem?_eq_some_iff.mp hpushed.hasPri).1
  | popped priority qe qInfo wInfo qInfoPri queue hpopped haccepted =>
    exact h.valid r (haccepted ▸ hr)
  | adjusted queueId fn hfn hadjusted haccepted => exact h.valid r (haccepted ▸ hr)

theorem Inv.reader_of_effect (h : s.Inv) {op : Op T} (heffect : Effect s s' op)
    {r : ℕ × ℕ × QE T × ℕ} (hr : r ∈ s'.read) : r.2.1 < s'.queues.workersInfo.length := by
  cases heffect with
  | quiet hsame =>
    rw [hsame] at hr ⊢
    exact h.reader r hr
  | pushed qe qInfo wInfo qInfoPri queue hpushed haccepted hread =>
    rw [hpushed.result, List.length_set]
    exact h.reader r (hread ▸ hr)
  | popped priority qe qInfo wInfo qInfoPri queue hpopped haccepted hread =>
    rw [hread] at hr
    rw [hpopped.result, List.length_set]
    rcases List.mem_append.mp hr with hr | hr
    · exact h.reader r hr
    · rw [List.mem_singleton.mp hr]
      exact (List.getElem?_eq_some_iff.mp hpopped.hasWorker).1
  | adjusted queueId fn hfn hadjusted haccepted hread =>
    obtain ⟨qInfo, pris, -, -, -, hresult⟩ := adjust_cases hfn hadjusted
    rw [hresult]
    exact h.reader r (hread ▸ hr)

/-- **Step lemma.** -/
theorem Inv.of_effect (h : s.Inv) {op : Op T} (heffect : Effect s s' op) : s'.Inv where
  priority p := h.priority_of_effect heffect p
  total _ _ hinfo := nbPriorities_of_effect heffect ▸ h.total_of_effect heffect hinfo
  worker _ _ hinfo := h.worker_of_effect heffect hinfo
  valid _ hr := nbPriorities_of_effect heffect ▸ h.valid_of_effect heffect hr
  reader _ hr := h.reader_of_effect heffect hr

/-! ### The counters -/

/-- The size of a logical queue is a sum. -/
theorem Inv.count_eq (h : s.Inv) {k : ℕ} {qInfo : QueueInfoPris}
    (hinfo : s.queues.queuesInfo[k]? = some qInfo) : qInfo.size = s.queues.count k := by
  obtain ⟨hlength, hsize⟩ := h.total k qInfo hinfo
  have hsizes : qInfo.pris.map QueueInfo.size =
      (List.range s.queues.nbPriorities).map fun p => (s.queues.present k p).length := by
    apply List.ext_getElem (by rw [List.length_map, List.length_map, List.length_range, hlength])
    intro p hp hp'
    rw [List.getElem_map, List.getElem_map, List.getElem_range]
    apply (h.priority p).size k
    show (s.queues.atPriority p).queuesInfo[k]? = _
    rw [PriQueues.atPriority, List.getElem?_map, hinfo, Option.map_some,
      List.getElem?_eq_getElem (by simpa using hp), Option.getD_some]
  rw [hsize, hsizes]
  rfl

/-- Nothing was read and nothing was accepted where there is more than one priority. -/
def Quiet (s : History T) : Prop :=
  s.read = [] ∧ (s.queues.nbPriorities ≤ 1 ∨ s.accepted = [])

/-- All the counters say what they should. -/
structure Right (s : History T) : Prop where
  sizePri : ∀ (k p n : ℕ), s.queues.sizePri k p = some n → n = (s.queues.present k p).length
  workerSize : ∀ (w n : ℕ), s.queues.workerSize w = some n → n = (s.queues.held w).length

theorem sizePri_eq_some {q : PriQueues T} {k p n : ℕ} (h : q.sizePri k p = some n) :
    ∃ qInfo, q.queuesInfo[k]? = some qInfo ∧ p < qInfo.pris.length ∧ n = qInfo.size := by
  obtain ⟨qInfo, hinfo, h⟩ := Option.bind_eq_some_iff.mp h
  obtain ⟨pri, hpri, h⟩ := Option.bind_eq_some_iff.mp h
  obtain ⟨wInfo, -, h⟩ := Option.bind_eq_some_iff.mp h
  cases h
  exact ⟨qInfo, hinfo, (List.getElem?_eq_some_iff.mp hpri).1, rfl⟩

theorem sizePri_eq {q : PriQueues T} {k p : ℕ} {qInfo : QueueInfoPris}
    (hinfo : q.queuesInfo[k]? = some qInfo) (hp : p < qInfo.pris.length)
    (hworker : q.mapToWorker k < q.workersInfo.length) : q.sizePri k p = some qInfo.size := by
  rw [sizePri, hinfo, Option.bind_eq_bind, Option.bind_some, List.getElem?_eq_getElem hp,
    Option.bind_eq_bind, Option.bind_some, List.getElem?_eq_getElem hworker]
  rfl

theorem exists_heap_of_mem {q : PriQueues T} {w p : ℕ} {qe : QE T}
    (hqe : qe ∈ (q.atPriority p).items w) :
    ∃ wInfo queue, q.workersInfo[w]? = some wInfo ∧ wInfo.queues[p]? = some queue ∧ qe ∈ queue := by
  rw [RateQueues.items, PriQueues.atPriority, List.getElem?_map] at hqe
  cases hinfo : q.workersInfo[w]? with
  | none =>
    rw [hinfo] at hqe
    exact absurd hqe List.not_mem_nil
  | some wInfo =>
    rw [hinfo, Option.map_some, Option.getD_some] at hqe
    cases hqueue : wInfo.queues[p]? with
    | none =>
      rw [hqueue] at hqe
      exact absurd hqe List.not_mem_nil
    | some queue =>
      rw [hqueue] at hqe
      exact ⟨wInfo, queue, rfl, hqueue, hqe⟩

/-- What is queued belongs to a queue and to a worker. -/
theorem Inv.known_of_present (h : s.Inv) {k p : ℕ} {qe : QE T} (hpresent : qe ∈ s.queues.present k p) :
    k < s.queues.queuesInfo.length ∧ s.queues.mapToWorker k < s.queues.workersInfo.length := by
  obtain ⟨hheap, hqueue⟩ := List.mem_filter.mp hpresent
  constructor
  · have hknown := (h.priority p).known _ qe hheap
    rw [of_decide_eq_true hqueue] at hknown
    simpa only [atPriority, PriQueues.atPriority, List.length_map] using hknown
  · obtain ⟨wInfo, queue, hinfo, -⟩ := exists_heap_of_mem hheap
    exact (List.getElem?_eq_some_iff.mp hinfo).1

/-- The size of a worker counts what it has read as well. -/
theorem Inv.workerSize_eq (h : s.Inv) {w n : ℕ} (hsize : s.queues.workerSize w = some n) :
    n = (s.queues.held w).length + (s.readBy w).length := by
  obtain ⟨wInfo, hinfo, rfl⟩ := Option.map_eq_some_iff.mp hsize
  rw [h.worker w wInfo hinfo, held, hinfo, Option.map_some, Option.getD_some, List.length_flatten]

theorem Inv.right_of_quiet (h : s.Inv) (hquiet : s.Quiet) : s.Right := by
  constructor
  · intro k p n hsize
    obtain ⟨qInfo, hinfo, hp, rfl⟩ := sizePri_eq_some hsize
    rw [(h.total k qInfo hinfo).1] at hp
    rw [h.count_eq hinfo, PriQueues.count]
    rcases hquiet.2 with hone | hnone
    · obtain ⟨hnb, rfl⟩ : s.queues.nbPriorities = 1 ∧ p = 0 := by omega
      rw [hnb]
      exact Finset.sum_range_one _
    · have hempty : ∀ p, s.queues.present k p = [] := by
        intro p
        have hperm := (h.priority p).exactlyOnce k
        have haccepted : (s.atPriority p).acceptedOf k = [] := by
          simp [atPriority, RateQueues.History.acceptedOf, hnone]
        rw [haccepted, List.map_nil] at hperm
        exact (List.append_eq_nil_iff.mp hperm.nil_eq.symm).2
      rw [hempty]
      exact Finset.sum_eq_zero fun p _ => congrArg List.length (hempty p)
  · intro w n hsize
    rw [h.workerSize_eq hsize, readBy, hquiet.1]
    rfl

theorem Inv.quiet_of_right (h : s.Inv) (hright : s.Right) : s.Quiet := by
  have hread : s.read = [] := by
    by_contra hne
    obtain ⟨r, hr⟩ := List.exists_mem_of_ne_nil _ hne
    have hw := List.getElem?_eq_getElem (h.reader r hr)
    have hsize : s.queues.workerSize r.2.1 =
        some (s.queues.workersInfo.get ⟨r.2.1, h.reader r hr⟩).size := by
      rw [workerSize, hw, Option.map_some, List.get_eq_getElem]
    have hheld := hright.workerSize _ _ hsize
    have hboth := h.workerSize_eq hsize
    have hpos : 0 < (s.readBy r.2.1).length :=
      List.length_pos_of_mem (List.mem_filter.mpr ⟨hr, by simp⟩)
    omega
  refine ⟨hread, ?_⟩
  by_contra hmany
  push Not at hmany
  obtain ⟨hnb, hne⟩ := hmany
  obtain ⟨⟨p, qe, d⟩, hr⟩ := List.exists_mem_of_ne_nil _ hne
  have hp : p < s.queues.nbPriorities := h.valid _ hr
  -- the element is still there
  have hpresent : qe ∈ s.queues.present qe.queueId p := by
    have hperm := (h.priority p).exactlyOnce qe.queueId
    have hmem : qe ∈ ((s.atPriority p).acceptedOf qe.queueId).map (·.1) := by
      refine List.mem_map.mpr ⟨(qe, d), List.mem_filter.mpr ⟨?_, by simp⟩, rfl⟩
      exact List.mem_map.mpr ⟨(p, qe, d), List.mem_filter.mpr ⟨hr, by simp⟩, rfl⟩
    rcases List.mem_append.mp (hperm.mem_iff.mp hmem) with hmem | hmem
    · simp [atPriority, RateQueues.History.readOf, hread] at hmem
    · exact hmem
  -- so both its priority and another one answer with the size of the queue
  obtain ⟨hknown, hworker⟩ := h.known_of_present hpresent
  have hinfo := List.getElem?_eq_getElem hknown
  have hsize : ∀ p' < s.queues.nbPriorities,
      s.queues.count qe.queueId = (s.queues.present qe.queueId p').length := by
    intro p' hp'
    rw [← h.count_eq hinfo]
    apply hright.sizePri qe.queueId p'
    exact sizePri_eq hinfo (by rw [(h.total _ _ hinfo).1]; exact hp') hworker
  obtain ⟨p', hp', hne'⟩ : ∃ p' < s.queues.nbPriorities, p ≠ p' := by
    by_cases hzero : p = 0
    · exact ⟨1, hnb, by omega⟩
    · exact ⟨0, by omega, hzero⟩
  have hsum : (s.queues.present qe.queueId p).length + (s.queues.present qe.queueId p').length ≤
      s.queues.count qe.queueId :=
    Finset.add_le_sum (f := fun p => (s.queues.present qe.queueId p).length)
      (fun _ _ => Nat.zero_le _) (Finset.mem_range.mpr hp) (Finset.mem_range.mpr hp') hne'
  have hpos := List.length_pos_of_mem hpresent
  have hown := hsize p hp
  have hother := hsize p' hp'
  omega

/-- A reader does not wait when something is due. -/
theorem Inv.exists_popBack (h : s.Inv) {w p now : ℕ} (hp : p < s.queues.nbPriorities)
    (hdue : ∃ qe ∈ (s.queues.atPriority p).items w, qe.send ≤ now) :
    ∃ i res, s.queues.popBack w i now = some res := by
  obtain ⟨qe, hqe, hdue⟩ := hdue
  obtain ⟨wInfo, queue, hinfo, hqueue, hmem⟩ := exists_heap_of_mem hqe
  have hsize : wInfo.size ≠ 0 := by
    have hpos : 0 < wInfo.queues.flatten.length := List.length_pos_of_mem
      (List.mem_flatten_of_mem (List.mem_of_getElem? hqueue) hmem)
    rw [List.length_flatten] at hpos
    rw [h.worker w wInfo hinfo]
    omega
  have hstops : WorkerInfo.stops wInfo now p = true := by
    rw [WorkerInfo.stops, hqueue]
    exact List.any_eq_true.mpr ⟨qe, hmem, decide_eq_true hdue⟩
  -- the loop stops there or earlier, at a heap with a top that is due
  obtain ⟨pri, hserved⟩ := Option.isSome_iff_exists.mp
    (List.find?_isSome.mpr ⟨p, List.mem_range.mpr hp, hstops⟩)
  obtain ⟨hstop, hpri, hbefore⟩ := List.find?_range_eq_some.mp hserved
  have hle : pri ≤ p := by
    by_contra hlt
    exact absurd (hbefore p (not_le.mp hlt)) (by rw [hstops]; decide)
  have hlt : pri < wInfo.queues.length :=
    hle.trans_lt (List.getElem?_eq_some_iff.mp hqueue).1
  have hheap := List.getElem?_eq_getElem hlt
  rw [WorkerInfo.stops, hheap, List.any_eq_true] at hstop
  obtain ⟨other, hother, hready⟩ := hstop
  have hready : ∃ qe ∈ wInfo.queues[pri], qe.send ≤ now := ⟨other, hother, of_decide_eq_true hready⟩
  obtain ⟨i, top, htop, hleast, -⟩ := exists_least hready
  have hknown : top.queueId < s.queues.queuesInfo.length := by
    have hitems : (s.queues.atPriority pri).items w = wInfo.queues[pri] := by
      rw [RateQueues.items, PriQueues.atPriority, List.getElem?_map, hinfo, Option.map_some, hheap]
      rfl
    have hknown := (h.priority pri).known w top (hitems ▸ List.mem_of_getElem? htop)
    simpa only [atPriority, PriQueues.atPriority, List.length_map] using hknown
  have hqInfo := List.getElem?_eq_getElem hknown
  have hpris : pri < s.queues.queuesInfo[top.queueId].pris.length := by
    rw [(h.total _ _ hqInfo).1]
    exact List.mem_range.mp hpri
  refine ⟨i, ?_⟩
  rw [PriQueues.popBack, hinfo]
  simp only [Option.bind_eq_bind, Option.bind_some, guard, if_pos hsize, hserved, hheap, htop,
    if_pos hleast, hqInfo, List.getElem?_eq_getElem hpris, pure]
  exact ⟨_, rfl⟩

end Steps

/-- What holds in any case. -/
structure Accounts (s : History T) : Prop where
  size : ∀ (k n : ℕ), s.queues.size k = some n → n = s.queues.count k
  storedSize : ∀ (k p : ℕ) (info : QueueInfo), s.queues.infoPri k p = some info →
    info.size = (s.queues.present k p).length
  refused : ∀ (k p : ℕ) (item : T) (now : ℕ) (q : PriQueues T),
    s.queues.pushFront k p item now = some (none, q) ↔ q = s.queues ∧
      ∃ info : QueueInfo, s.queues.infoPri k p = some info ∧
        info.capacity ≤ (s.queues.present k p).length
  exactlyOnce : ∀ k p, (s.acceptedOf k p).Perm (s.readOf k p ++ s.queues.present k p)
  ownWorker : ∀ r ∈ s.read, r.2.1 = s.queues.mapToWorker r.2.2.1.queueId
  highest : ∀ (w i now p : ℕ) (qe : QE T) (q : PriQueues T),
    s.queues.popBack w i now = some ((p, qe), q) →
      qe ∈ (s.queues.atPriority p).items w ∧ qe.send ≤ now ∧
        ∀ p' < p, ∀ other ∈ (s.queues.atPriority p').items w, now < other.send
  prompt : ∀ (w p now : ℕ), p < s.queues.nbPriorities →
    (∃ qe ∈ (s.queues.atPriority p).items w, qe.send ≤ now) →
      ∃ i res, s.queues.popBack w i now = some res

theorem Inv.storedSize {s : History T} (h : s.Inv) {k p : ℕ} {info : QueueInfo}
    (hinfo : s.queues.infoPri k p = some info) : info.size = (s.queues.present k p).length := by
  obtain ⟨qInfo, hqInfo, hinfo⟩ := Option.bind_eq_some_iff.mp hinfo
  obtain ⟨wInfo, -, hpri⟩ := Option.bind_eq_some_iff.mp hinfo
  apply (h.priority p).size k
  show (s.queues.atPriority p).queuesInfo[k]? = _
  rw [PriQueues.atPriority, List.getElem?_map, hqInfo, Option.map_some, hpri, Option.getD_some]

theorem Inv.accounts {s : History T} (h : s.Inv) : s.Accounts where
  size k n hsize := by
    obtain ⟨qInfo, hinfo, hsize⟩ := Option.bind_eq_some_iff.mp hsize
    obtain ⟨wInfo, -, hsize⟩ := Option.bind_eq_some_iff.mp hsize
    cases hsize
    exact h.count_eq hinfo
  storedSize k p info hinfo := h.storedSize hinfo
  refused k p item now q := by
    constructor
    · intro hpush
      rcases pushFront_cases hpush with ⟨-, rfl, info, hinfo, hfull⟩ | ⟨_, _, _, _, _, hsome, -⟩
      · exact ⟨rfl, info, hinfo, h.storedSize hinfo ▸ hfull⟩
      · cases hsome
    · rintro ⟨rfl, info, hinfo, hfull⟩
      rw [← h.storedSize hinfo] at hfull
      obtain ⟨qInfo, hqInfo, hbind⟩ := Option.bind_eq_some_iff.mp hinfo
      obtain ⟨wInfo, hwInfo, hpri⟩ := Option.bind_eq_some_iff.mp hbind
      rw [PriQueues.pushFront, hqInfo]
      simp only [Option.bind_eq_bind, Option.bind_some, hwInfo, hpri]
      rw [if_pos hfull]
      rfl
  exactlyOnce k p := (h.priority p).exactlyOnce k
  ownWorker r hr := ((h.priority r.1).read r.2
    (List.mem_map.mpr ⟨r, List.mem_filter.mpr ⟨hr, by simp⟩, rfl⟩)).1
  highest w i now p qe q hpop := by
    obtain ⟨qInfo, wInfo, pri, queue, hpopped⟩ := popBack_cases hpop
    obtain ⟨info, hpopped'⟩ := RateQueues.popBack_cases (popBack_atPriority hpopped)
    exact ⟨List.mem_of_getElem? hpopped'.top, hpopped'.due,
      fun p' hp' other hother => hpopped.highest hp' hother⟩
  prompt w p now hp hdue := h.exists_popBack hp hdue

/-! ### Runs -/

/-- What keeps the counters right: no `pop_back` returns, and with more than one priority no
`push_front` finds room. -/
def KeepsCounters (s : History T) : Op T → Prop
  | .pushFront queueId priority _ _ => s.queues.nbPriorities ≤ 1 ∨
      ∀ info, s.queues.infoPri queueId priority = some info → info.capacity ≤ info.size
  | .popBack .. => False
  | _ => True

/-- Empty queues. -/
def start (nbQueues nbWorkers capacity nbPriorities now : ℕ) (mapToWorker : ℕ → ℕ) : History T :=
  { queues := create nbQueues nbWorkers capacity nbPriorities now mapToWorker }

section Start

variable {nbQueues nbWorkers capacity nbPriorities now : ℕ} {mapToWorker : ℕ → ℕ}

theorem inv_start :
    (start nbQueues nbWorkers capacity nbPriorities now mapToWorker : History T).Inv := by
  constructor
  · -- at each priority these are empty queues, whatever their capacities
    intro p
    have hitems : ∀ w, ((start nbQueues nbWorkers capacity nbPriorities now mapToWorker :
        History T).atPriority p).queues.items w = [] := by
      intro w
      rw [List.eq_nil_iff_forall_not_mem]
      intro qe hqe
      obtain ⟨wInfo, queue, hinfo, hqueue, hmem⟩ := exists_heap_of_mem hqe
      rw [List.eq_of_mem_replicate (List.mem_of_getElem? hinfo)] at hqueue
      rw [List.eq_of_mem_replicate (List.mem_of_getElem? hqueue)] at hmem
      exact absurd hmem List.not_mem_nil
    constructor
    · intro w qe hqe
      exact absurd (hitems w ▸ hqe) List.not_mem_nil
    · intro w qe hqe
      exact absurd (hitems w ▸ hqe) List.not_mem_nil
    · intro k info hinfo
      rw [RateQueues.present, hitems]
      obtain ⟨qInfo, hqInfo, rfl⟩ := List.mem_map.mp (List.mem_of_getElem? hinfo)
      rw [List.eq_of_mem_replicate hqInfo]
      dsimp only
      rw [List.getElem?_replicate]
      split <;> rfl
    · intro k info hinfo r hr
      exact absurd hr List.not_mem_nil
    · intro k
      rw [RateQueues.present, hitems]
      exact List.Perm.refl _
    · exact fun k => List.isChain_nil
    · intro r hr
      exact absurd hr List.not_mem_nil
  · intro k qInfo hinfo
    rw [List.eq_of_mem_replicate (List.mem_of_getElem? hinfo)]
    refine ⟨List.length_replicate, ?_⟩
    rw [List.map_replicate, List.sum_replicate, smul_zero]
  · intro w wInfo hinfo
    rw [List.eq_of_mem_replicate (List.mem_of_getElem? hinfo)]
    show 0 = ((List.replicate 32 ([] : List (QE T))).map List.length).sum + 0
    rw [List.map_replicate, List.sum_replicate, List.length_nil, smul_zero]
  · intro r hr
    exact absurd hr List.not_mem_nil
  · intro r hr
    exact absurd hr List.not_mem_nil

end Start

theorem quiet_of_effect {s s' : History T} {op : Op T} (heffect : Effect s s' op)
    (hkeeps : s.KeepsCounters op) (hquiet : s.Quiet) : s'.Quiet := by
  cases heffect with
  | quiet hsame => exact hsame ▸ hquiet
  | @pushed priority item now qe qInfo wInfo qInfoPri queue hpushed haccepted hread =>
    refine ⟨hread ▸ hquiet.1, .inl ?_⟩
    rcases hkeeps with hone | hfull
    · rw [hpushed.result]
      exact hone
    · have hinfo : s.queues.infoPri qe.queueId priority = some qInfoPri := by
        rw [infoPri, hpushed.hasQueue, Option.bind_eq_bind, Option.bind_some, hpushed.hasWorker]
        exact hpushed.hasPri
      exact absurd (hfull qInfoPri hinfo) (not_le.mpr hpushed.room)
  | popped => exact hkeeps.elim
  | adjusted queueId fn hfn hadjusted haccepted hread =>
    obtain ⟨qInfo, pris, -, -, -, hresult⟩ := adjust_cases hfn hadjusted
    rw [Quiet, hread, haccepted, hresult]
    exact hquiet

/-- **Accounting and priorities.**  In every run the sizes that are kept for each priority and for each
queue are right, a push is refused exactly at capacity, what is accepted is read once, and a reader gets
an element of the highest priority that has one due.  All the counters are right as
long as nothing is read and nothing is accepted where there is more than one priority, and no longer. -/
theorem accounts_and_counters (nbQueues nbWorkers capacity nbPriorities now : ℕ)
    (mapToWorker : ℕ → ℕ) (ops : List (Op T)) {s : History T}
    (hrun : runFrom step (start nbQueues nbWorkers capacity nbPriorities now mapToWorker) ops = some s) :
    s.Accounts ∧
      (RunMeets step KeepsCounters
        (start nbQueues nbWorkers capacity nbPriorities now mapToWorker) ops → s.Right) ∧
      (s.Right ↔ s.Quiet) := by
  have hinv : s.Inv :=
    runFrom_invariant (fun s op s' h hstep => h.of_effect (step_effect hstep)) inv_start hrun
  refine ⟨hinv.accounts, fun hkeeps => ?_, hinv.quiet_of_right, hinv.right_of_quiet⟩
  apply hinv.right_of_quiet
  exact runFrom_invariant_of_meets (I := Quiet)
    (fun s op s' h hop hstep => quiet_of_effect (step_effect hstep) hop h) ⟨rfl, .inr rfl⟩ hkeeps hrun

/-- One priority and no read, with a push that is refused. -/
theorem accounts_and_counters_one : ∃ s : History ℕ,
    runFrom step (start 1 1 1 1 0 fun _ => 0) [.pushFront 0 0 10 7, .pushFront 0 0 11 8] = some s ∧
    s.accepted = [(0, ⟨10, 0, 7⟩, 0)] ∧ s.Accounts ∧ s.Right := by
  refine ⟨_, rfl, by decide, ?_⟩
  have h := accounts_and_counters 1 1 1 1 0 (fun _ => 0)
    [.pushFront 0 0 10 7, .pushFront 0 0 11 8] rfl
  exact ⟨h.1, h.2.1 ⟨.inl le_rfl, fun _ hstep => ⟨.inl (by cases hstep; decide), fun _ _ => trivial⟩⟩⟩

/-- Two priorities, an element of each and a read: the worker counts two elements and has
one, and the priority that was read answers with the size of the queue. -/
theorem counters_drift : ∃ s : History ℕ,
    runFrom step (start 1 1 2 2 0 fun _ => 0)
      [.pushFront 0 1 10 7, .pushFront 0 0 11 8, .popBack 0 0 9] = some s ∧
    s.queues.workerSize 0 = some 2 ∧ (s.queues.held 0).length = 1 ∧
    s.queues.sizePri 0 0 = some 1 ∧ s.queues.present 0 0 = [] ∧ ¬ s.Right := by
  refine ⟨_, rfl, by decide, by decide, by decide, by decide, fun h => ?_⟩
  exact absurd (h.workerSize 0 2 (by decide)) (by decide)

end History

end PriQueues

end Bm
