/-
# Rate-limited queues

`QueueingLogicRL<T, FMap>` (`queueing.h`) for any map from the logical queues to the workers; the
switch uses it with the map of `QueueingLogicRL` in `Queues`.  The heap of a worker honours
only the comparison of the send times, so a reader may get any of the elements with the least one.

A history keeps what has been accepted and what has been read next to the queues.

* `pushFront_of_mod`: with that map the operations are those of `Queues`;
* `paced_and_ordered`: what holds in every run, and what holds when no two elements of a queue
  get the same send time.
-/
import Bmv2.Lib.Runs
import Bmv2.Lib.TimedQueue
import Bmv2.Queues

namespace Bm

/-- `QueueingLogicRL`, with `map_to_worker`. -/
structure RateQueues (T : Type) where
  mapToWorker : ℕ → ℕ
  queuesInfo : List QueueInfo
  workersInfo : List (List (QE T))

namespace RateQueues

variable {T : Type} (q : RateQueues T)

/-- The constructor. -/
def create (nbQueues nbWorkers capacity now : ℕ) (mapToWorker : ℕ → ℕ) : RateQueues T where
  mapToWorker := mapToWorker
  queuesInfo := List.replicate nbQueues { capacity := capacity, lastSent := now }
  workersInfo := List.replicate nbWorkers []

/-- `get_next_tp`. -/
def getNextTp (qInfo : QueueInfo) (now : ℕ) : ℕ := max now (qInfo.lastSent + qInfo.pktDelayTicks)

/-- `push_front`: the element that has been queued, if any; `none` when `at` throws. -/
def pushFront (queueId : ℕ) (item : T) (now : ℕ) : Option (Option (QE T) × RateQueues T) := do
  let workerId := q.mapToWorker queueId
  let qInfo ← q.queuesInfo[queueId]?
  let queue ← q.workersInfo[workerId]?
  if qInfo.size ≥ qInfo.capacity then return (none, q)
  let lastSent := getNextTp qInfo now
  return (some ⟨item, queueId, lastSent⟩, { q with
    workersInfo := q.workersInfo.set workerId (⟨item, queueId, lastSent⟩ :: queue)
    queuesInfo := q.queuesInfo.set queueId { qInfo with lastSent, size := qInfo.size + 1 } })

/-- `pop_back` of the element at place `i` of the heap of a worker, which has to be one with the
least send time; `none` while the reader waits. -/
def popBack (workerId i now : ℕ) : Option (QE T × RateQueues T) := do
  let queue ← q.workersInfo[workerId]?
  let top ← queue[i]?
  if (∀ qe ∈ queue, top.send ≤ qe.send) ∧ top.send ≤ now then
    let qInfo ← q.queuesInfo[top.queueId]?
    return (top, { q with
      workersInfo := q.workersInfo.set workerId (queue.eraseIdx i)
      queuesInfo := q.queuesInfo.set top.queueId { qInfo with size := qInfo.size - 1 } })
  else none

/-- What `size`, `set_capacity` and `set_rate` start with; `none` when `at` throws. -/
def info (queueId : ℕ) : Option QueueInfo := do
  let qInfo ← q.queuesInfo[queueId]?
  let _ ← q.workersInfo[q.mapToWorker queueId]?
  return qInfo

/-- `size`. -/
def size (queueId : ℕ) : Option ℕ := (q.info queueId).map QueueInfo.size

/-- `set_capacity`. -/
def setCapacity (queueId c : ℕ) : Option (RateQueues T) :=
  (q.info queueId).map fun qInfo =>
    { q with queuesInfo := q.queuesInfo.set queueId { qInfo with capacity := c } }

/-- `set_rate`, with the delay that is computed from the rate. -/
def setRate (queueId pktDelayTicks : ℕ) : Option (RateQueues T) :=
  (q.info queueId).map fun qInfo =>
    { q with queuesInfo := q.queuesInfo.set queueId { qInfo with pktDelayTicks } }

/-! ## The map of the switch -/

/-- The queues of the switch. -/
def ofMod (q : QueueingLogicRL T) : RateQueues T where
  mapToWorker queueId := queueId % q.nbWorkers
  queuesInfo := q.queuesInfo
  workersInfo := q.workersInfo

theorem pushFront_of_mod (q : QueueingLogicRL T) (queueId : ℕ) (item : T) (now : ℕ) :
    ((ofMod q).pushFront queueId item now).map (fun (qe, q) => (qe.isSome, q)) =
      (q.pushFront queueId item now).map fun (queued, q) => (queued, ofMod q) := by
  rw [pushFront, QueueingLogicRL.pushFront]
  cases hinfo : q.queuesInfo[queueId]? with
  | none => simp [ofMod, hinfo]
  | some qInfo =>
    cases hqueue : q.workersInfo[queueId % q.nbWorkers]? with
    | none => simp [ofMod, hinfo, hqueue, QueueingLogicRL.mapToWorker]
    | some queue =>
      simp only [ofMod, hinfo, hqueue, QueueingLogicRL.mapToWorker, Option.bind_eq_bind,
        Option.bind_some]
      split <;> rfl

theorem popBack_of_mod (q : QueueingLogicRL T) (workerId i now : ℕ) :
    ((ofMod q).popBack workerId i now).map (fun (qe, q) => ((qe.queueId, qe.e), q)) =
      (q.popBack workerId i now).map fun (res, q) => (res, ofMod q) := by
  rw [popBack, QueueingLogicRL.popBack]
  cases hqueue : q.workersInfo[workerId]? with
  | none => simp [ofMod, hqueue]
  | some queue =>
    cases htop : queue[i]? with
    | none => simp [ofMod, hqueue, htop]
    | some top =>
      simp only [ofMod, hqueue, htop, Option.bind_eq_bind, Option.bind_some]
      split
      · cases q.queuesInfo[top.queueId]? <;> rfl
      · rfl

/-! ## What is queued -/

/-- The heap of a worker. -/
def items (workerId : ℕ) : List (QE T) := (q.workersInfo[workerId]?).getD []

/-- The elements of a logical queue, the newest first. -/
def present (queueId : ℕ) : List (QE T) :=
  (q.items (q.mapToWorker queueId)).filter fun qe => qe.queueId = queueId

/-- The delay in force. -/
def delay (queueId : ℕ) : ℕ := ((q.queuesInfo[queueId]?).map QueueInfo.pktDelayTicks).getD 0

section Calls

variable {q} {q' : RateQueues T} {queueId workerId i now : ℕ} {item : T} {qe : QE T}

theorem items_of_getElem? {queue : List (QE T)} (h : q.workersInfo[workerId]? = some queue) :
    q.items workerId = queue := by
  rw [items, h, Option.getD_some]

/-- The heap of one worker is written. -/
theorem items_set {queue queue' : List (QE T)} (h : q.workersInfo[workerId]? = some queue)
    (hset : q'.workersInfo = q.workersInfo.set workerId queue') :
    q'.items = Function.update q.items workerId queue' := by
  funext w
  rw [items, hset]
  by_cases hw : w = workerId
  · rw [hw, List.getElem?_set_self (List.getElem?_eq_some_iff.mp h).1, Function.update_self,
      Option.getD_some]
  · rw [List.getElem?_set_ne (Ne.symm hw), Function.update_of_ne hw, items]

/-- What an accepted `push_front` does. -/
structure Pushed (q q' : RateQueues T) (qe : QE T) (qInfo : QueueInfo) (now : ℕ) : Prop where
  info : q.queuesInfo[qe.queueId]? = some qInfo
  room : qInfo.size < qInfo.capacity
  send : qe.send = getNextTp qInfo now
  mapToWorker : q'.mapToWorker = q.mapToWorker
  queuesInfo : q'.queuesInfo = q.queuesInfo.set qe.queueId
    { qInfo with lastSent := qe.send, size := qInfo.size + 1 }
  items : q'.items = Function.update q.items (q.mapToWorker qe.queueId)
    (qe :: q.items (q.mapToWorker qe.queueId))

theorem pushFront_cases {res : Option (QE T)} (h : q.pushFront queueId item now = some (res, q')) :
    (res = none ∧ q' = q ∧ ∃ qInfo, q.queuesInfo[queueId]? = some qInfo ∧
      qInfo.capacity ≤ qInfo.size) ∨
    ∃ qe qInfo, res = some qe ∧ qe.e = item ∧ qe.queueId = queueId ∧ q.Pushed q' qe qInfo now := by
  obtain ⟨qInfo, hinfo, h⟩ := Option.bind_eq_some_iff.mp h
  obtain ⟨queue, hqueue, h⟩ := Option.bind_eq_some_iff.mp h
  split at h
  next hfull =>
    cases h
    exact .inl ⟨rfl, rfl, qInfo, hinfo, hfull⟩
  next hroom =>
    cases h
    refine .inr ⟨_, qInfo, rfl, rfl, rfl, hinfo, not_le.mp hroom, rfl, rfl, rfl, ?_⟩
    show _ = Function.update q.items (q.mapToWorker queueId) _
    rw [items_of_getElem? hqueue]
    exact items_set hqueue rfl

/-- What `pop_back` does. -/
structure Popped (q q' : RateQueues T) (workerId i : ℕ) (qe : QE T) (qInfo : QueueInfo) (now : ℕ) :
    Prop where
  top : (q.items workerId)[i]? = some qe
  least : ∀ other ∈ q.items workerId, qe.send ≤ other.send
  due : qe.send ≤ now
  info : q.queuesInfo[qe.queueId]? = some qInfo
  mapToWorker : q'.mapToWorker = q.mapToWorker
  queuesInfo : q'.queuesInfo = q.queuesInfo.set qe.queueId { qInfo with size := qInfo.size - 1 }
  items : q'.items = Function.update q.items workerId ((q.items workerId).eraseIdx i)

theorem popBack_cases (h : q.popBack workerId i now = some (qe, q')) :
    ∃ qInfo, q.Popped q' workerId i qe qInfo now := by
  obtain ⟨queue, hqueue, h⟩ := Option.bind_eq_some_iff.mp h
  obtain ⟨top, htop, h⟩ := Option.bind_eq_some_iff.mp h
  have hitems := items_of_getElem? hqueue
  split at h
  next hdue =>
    obtain ⟨qInfo, hinfo, h⟩ := Option.bind_eq_some_iff.mp h
    cases h
    rw [← hitems] at htop hdue
    refine ⟨qInfo, htop, hdue.1, hdue.2, hinfo, rfl, rfl, ?_⟩
    rw [hitems]
    exact items_set hqueue rfl
  next => cases h

/-- What `set_rate` and `set_capacity` do. -/
structure Adjusted (q q' : RateQueues T) (queueId : ℕ) (qInfo qInfo' : QueueInfo) : Prop where
  info : q.queuesInfo[queueId]? = some qInfo
  size : qInfo'.size = qInfo.size
  lastSent : qInfo'.lastSent = qInfo.lastSent
  mapToWorker : q'.mapToWorker = q.mapToWorker
  queuesInfo : q'.queuesInfo = q.queuesInfo.set queueId qInfo'
  items : q'.items = q.items

theorem info_eq_some {qInfo : QueueInfo} (h : q.info queueId = some qInfo) :
    q.queuesInfo[queueId]? = some qInfo := by
  obtain ⟨qInfo', hinfo, h⟩ := Option.bind_eq_some_iff.mp h
  obtain ⟨_, -, h⟩ := Option.bind_eq_some_iff.mp h
  cases h
  exact hinfo

theorem setCapacity_cases {c : ℕ} (h : q.setCapacity queueId c = some q') :
    ∃ qInfo, q.Adjusted q' queueId qInfo { qInfo with capacity := c } := by
  obtain ⟨qInfo, hinfo, rfl⟩ := Option.map_eq_some_iff.mp h
  exact ⟨qInfo, info_eq_some hinfo, rfl, rfl, rfl, rfl, rfl⟩

theorem setRate_cases {pktDelayTicks : ℕ} (h : q.setRate queueId pktDelayTicks = some q') :
    ∃ qInfo, q.Adjusted q' queueId qInfo { qInfo with pktDelayTicks } := by
  obtain ⟨qInfo, hinfo, rfl⟩ := Option.map_eq_some_iff.mp h
  exact ⟨qInfo, info_eq_some hinfo, rfl, rfl, rfl, rfl, rfl⟩

/-- The new element is in its queue, in front of the others. -/
theorem Pushed.present {qInfo : QueueInfo} (h : q.Pushed q' qe qInfo now) :
    q'.present = Function.update q.present qe.queueId (qe :: q.present qe.queueId) := by
  funext k
  rw [RateQueues.present, h.mapToWorker, h.items]
  by_cases hk : k = qe.queueId
  · rw [hk, Function.update_self, Function.update_self, List.filter_cons_of_pos (by simp)]
    rfl
  · rw [Function.update_of_ne hk]
    by_cases hworker : q.mapToWorker k = q.mapToWorker qe.queueId
    · rw [hworker, Function.update_self, List.filter_cons_of_neg (by simpa using Ne.symm hk),
        ← hworker]
      rfl
    · rw [Function.update_of_ne hworker]
      rfl

/-- What was read is gone from its queue. -/
theorem Popped.present {qInfo : QueueInfo} (h : q.Popped q' workerId i qe qInfo now)
    (hworker : q.mapToWorker qe.queueId = workerId) :
    q'.present = Function.update q.present qe.queueId
      (((q.items workerId).eraseIdx i).filter fun other => other.queueId = qe.queueId) := by
  funext k
  rw [RateQueues.present, h.mapToWorker, h.items]
  by_cases hk : k = qe.queueId
  · rw [hk, hworker, Function.update_self, Function.update_self]
  · rw [Function.update_of_ne hk]
    by_cases hk' : q.mapToWorker k = workerId
    · rw [hk', Function.update_self, filter_eraseIdx_of_not h.top (by simpa using Ne.symm hk), ← hk']
      rfl
    · rw [Function.update_of_ne hk']
      rfl

theorem Adjusted.present {qInfo qInfo' : QueueInfo} (h : q.Adjusted q' queueId qInfo qInfo') :
    q'.present = q.present := by
  funext k
  rw [RateQueues.present, h.mapToWorker, h.items]
  rfl

end Calls

/-! ## Histories -/

/-- The queues, the elements that have been accepted, with the delay that was in force, and those
that have been read, with the worker and the time; both with the oldest first. -/
structure History (T : Type) where
  queues : RateQueues T
  accepted : List (QE T × ℕ) := []
  read : List (ℕ × QE T × ℕ) := []

/-- A call. -/
inductive Op (T : Type) where
  | pushFront (queueId : ℕ) (item : T) (now : ℕ)
  | popBack (workerId i now : ℕ)
  | setRate (queueId pktDelayTicks : ℕ)
  | setCapacity (queueId c : ℕ)

namespace History

/-- One call; a reader that has to wait makes its call later, and a call that throws changes
nothing. -/
def step (s : History T) : Op T → Option (History T)
  | .pushFront queueId item now =>
      match s.queues.pushFront queueId item now with
      | some (some qe, queues) =>
          some { s with queues, accepted := s.accepted ++ [(qe, s.queues.delay queueId)] }
      | _ => some s
  | .popBack workerId i now =>
      (s.queues.popBack workerId i now).map fun (qe, queues) =>
        { s with queues, read := s.read ++ [(workerId, qe, now)] }
  | .setRate queueId pktDelayTicks =>
      some { s with queues := (s.queues.setRate queueId pktDelayTicks).getD s.queues }
  | .setCapacity queueId c => some { s with queues := (s.queues.setCapacity queueId c).getD s.queues }

/-- The elements of a queue that have been accepted, with their delays. -/
def acceptedOf (s : History T) (queueId : ℕ) : List (QE T × ℕ) :=
  s.accepted.filter fun r => r.1.queueId = queueId

/-- The elements of a queue that have been read. -/
def readOf (s : History T) (queueId : ℕ) : List (QE T) :=
  (s.read.filter fun r => r.2.1.queueId = queueId).map fun r => r.2.1

/-- What one call does to the queues and to the history. -/
inductive Effect (s s' : History T) : Op T → Prop
  | quiet {op} (hsame : s' = s) : Effect s s' op
  | pushed {item now} (qe : QE T) (qInfo : QueueInfo) (hpushed : s.queues.Pushed s'.queues qe qInfo now)
      (haccepted : s'.accepted = s.accepted ++ [(qe, qInfo.pktDelayTicks)]) (hread : s'.read = s.read) :
      Effect s s' (.pushFront qe.queueId item now)
  | popped {workerId i now} (qe : QE T) (qInfo : QueueInfo)
      (hpopped : s.queues.Popped s'.queues workerId i qe qInfo now)
      (haccepted : s'.accepted = s.accepted) (hread : s'.read = s.read ++ [(workerId, qe, now)]) :
      Effect s s' (.popBack workerId i now)
  | rate {queueId pktDelayTicks} (qInfo : QueueInfo)
      (hadjusted : s.queues.Adjusted s'.queues queueId qInfo { qInfo with pktDelayTicks })
      (haccepted : s'.accepted = s.accepted) (hread : s'.read = s.read) :
      Effect s s' (.setRate queueId pktDelayTicks)
  | capacity {queueId c} (qInfo : QueueInfo)
      (hadjusted : s.queues.Adjusted s'.queues queueId qInfo { qInfo with capacity := c })
      (haccepted : s'.accepted = s.accepted) (hread : s'.read = s.read) :
      Effect s s' (.setCapacity queueId c)

theorem delay_eq {q : RateQueues T} {queueId : ℕ} {qInfo : QueueInfo}
    (h : q.queuesInfo[queueId]? = some qInfo) : q.delay queueId = qInfo.pktDelayTicks := by
  rw [delay, h]
  rfl

theorem step_effect {s s' : History T} {op : Op T} (h : s.step op = some s') : Effect s s' op := by
  cases op with
  | pushFront queueId item now =>
    rw [step] at h
    split at h
    next qe queues heq =>
      cases h
      rcases pushFront_cases heq with ⟨hnone, -⟩ | ⟨qe', qInfo, hqe, -, rfl, hpushed⟩
      · cases hnone
      · cases hqe
        exact .pushed qe qInfo hpushed (by rw [delay_eq hpushed.info]) rfl
    next =>
      cases h
      exact .quiet rfl
  | popBack workerId i now =>
    obtain ⟨⟨qe, queues⟩, hpop, rfl⟩ := Option.map_eq_some_iff.mp h
    obtain ⟨qInfo, hpopped⟩ := popBack_cases hpop
    exact .popped qe qInfo hpopped rfl rfl
  | setRate queueId pktDelayTicks =>
    cases h
    cases hset : s.queues.setRate queueId pktDelayTicks with
    | none => exact .quiet rfl
    | some queues =>
      obtain ⟨qInfo, hadjusted⟩ := setRate_cases hset
      exact .rate qInfo hadjusted rfl rfl
  | setCapacity queueId c =>
    cases h
    cases hset : s.queues.setCapacity queueId c with
    | none => exact .quiet rfl
    | some queues =>
      obtain ⟨qInfo, hadjusted⟩ := setCapacity_cases hset
      exact .capacity qInfo hadjusted rfl rfl

/-! ### The invariant -/

/-- The queues agree with the history. -/
structure Inv (s : History T) : Prop where
  worker : ∀ w, ∀ qe ∈ s.queues.items w, s.queues.mapToWorker qe.queueId = w
  known : ∀ w, ∀ qe ∈ s.queues.items w, qe.queueId < s.queues.queuesInfo.length
  size : ∀ k qInfo, s.queues.queuesInfo[k]? = some qInfo → qInfo.size = (s.queues.present k).length
  sent : ∀ k qInfo, s.queues.queuesInfo[k]? = some qInfo →
    ∀ r ∈ s.acceptedOf k, r.1.send ≤ qInfo.lastSent
  exactlyOnce : ∀ k, ((s.acceptedOf k).map (·.1)).Perm (s.readOf k ++ s.queues.present k)
  paced : ∀ k, Paced (fun r : QE T × ℕ => r.1.send) (·.2) (s.acceptedOf k)
  read : ∀ r ∈ s.read, r.1 = s.queues.mapToWorker r.2.1.queueId ∧ r.2.1.send ≤ r.2.2

section Steps

variable {s s' : History T}

theorem acceptedOf_append {qe : QE T} {d : ℕ} (h : s'.accepted = s.accepted ++ [(qe, d)]) :
    s'.acceptedOf = Function.update s.acceptedOf qe.queueId (s.acceptedOf qe.queueId ++ [(qe, d)]) := by
  funext k
  rw [acceptedOf, h, List.filter_append]
  by_cases hk : k = qe.queueId
  · rw [hk, Function.update_self, List.filter_cons_of_pos (by simp)]
    rfl
  · rw [Function.update_of_ne hk, List.filter_cons_of_neg (by simpa using Ne.symm hk),
      List.filter_nil, List.append_nil]
    rfl

theorem readOf_append {qe : QE T} {w now : ℕ} (h : s'.read = s.read ++ [(w, qe, now)]) :
    s'.readOf = Function.update s.readOf qe.queueId (s.readOf qe.queueId ++ [qe]) := by
  funext k
  rw [readOf, h, List.filter_append, List.map_append]
  by_cases hk : k = qe.queueId
  · rw [hk, Function.update_self, List.filter_cons_of_pos (by simp)]
    rfl
  · rw [Function.update_of_ne hk, List.filter_cons_of_neg (by simpa using Ne.symm hk),
      List.filter_nil, List.map_nil, List.append_nil]
    rfl

theorem acceptedOf_congr (h : s'.accepted = s.accepted) : s'.acceptedOf = s.acceptedOf := by
  funext k
  rw [acceptedOf, h, acceptedOf]

theorem readOf_congr (h : s'.read = s.read) : s'.readOf = s.readOf := by
  funext k
  rw [readOf, h, readOf]

theorem Inv.pushed (h : s.Inv) {qe : QE T} {qInfo : QueueInfo} {now : ℕ}
    (hpushed : s.queues.Pushed s'.queues qe qInfo now)
    (haccepted : s'.accepted = s.accepted ++ [(qe, qInfo.pktDelayTicks)])
    (hread : s'.read = s.read) : s'.Inv := by
  have hlast : qInfo.lastSent + qInfo.pktDelayTicks ≤ qe.send := by
    rw [hpushed.send]
    exact le_max_right _ _
  constructor
  · intro w other hother
    rw [hpushed.items] at hother
    rw [hpushed.mapToWorker]
    by_cases hw : w = s.queues.mapToWorker qe.queueId
    · rw [hw, Function.update_self] at hother
      rcases List.mem_cons.mp hother with rfl | hother
      · exact hw.symm
      · exact (h.worker _ other hother).trans hw.symm
    · rw [Function.update_of_ne hw] at hother
      exact h.worker w other hother
  · intro w other hother
    rw [hpushed.items] at hother
    rw [hpushed.queuesInfo, List.length_set]
    by_cases hw : w = s.queues.mapToWorker qe.queueId
    · rw [hw, Function.update_self] at hother
      rcases List.mem_cons.mp hother with rfl | hother
      · exact (List.getElem?_eq_some_iff.mp hpushed.info).1
      · exact h.known _ other hother
    · rw [Function.update_of_ne hw] at hother
      exact h.known w other hother
  · intro k info hinfo
    rw [hpushed.queuesInfo] at hinfo
    rw [hpushed.present]
    rcases getElem?_set_cases hinfo with ⟨rfl, rfl⟩ | ⟨hk, hinfo⟩
    · rw [Function.update_self]
      exact congrArg (· + 1) (h.size _ _ hpushed.info)
    · rw [Function.update_of_ne hk]
      exact h.size k info hinfo
  · intro k info hinfo r hr
    rw [hpushed.queuesInfo] at hinfo
    rw [acceptedOf_append haccepted] at hr
    rcases getElem?_set_cases hinfo with ⟨rfl, rfl⟩ | ⟨hk, hinfo⟩
    · rw [Function.update_self] at hr
      rcases List.mem_append.mp hr with hr | hr
      · have hsent := h.sent _ _ hpushed.info r hr
        show r.1.send ≤ qe.send
        omega
      · rw [List.mem_singleton.mp hr]
    · rw [Function.update_of_ne hk] at hr
      exact h.sent k info hinfo r hr
  · intro k
    rw [acceptedOf_append haccepted, readOf_congr hread, hpushed.present]
    by_cases hk : k = qe.queueId
    · rw [hk, Function.update_self, Function.update_self, List.map_append]
      have hperm := h.exactlyOnce qe.queueId
      calc (s.acceptedOf qe.queueId).map (·.1) ++ [qe]
          |>.Perm (qe :: (s.acceptedOf qe.queueId).map (·.1)) := List.perm_append_singleton _ _
        _ |>.Perm (qe :: (s.readOf qe.queueId ++ s.queues.present qe.queueId)) := hperm.cons qe
        _ |>.Perm (s.readOf qe.queueId ++ qe :: s.queues.present qe.queueId) := List.perm_middle.symm
    · rw [Function.update_of_ne hk, Function.update_of_ne hk]
      exact h.exactlyOnce k
  · intro k
    rw [acceptedOf_append haccepted]
    by_cases hk : k = qe.queueId
    · rw [hk, Function.update_self]
      refine (h.paced qe.queueId).append_singleton fun r hr => ?_
      have hsent := h.sent _ _ hpushed.info r (List.mem_of_getLast? hr)
      show r.1.send + qInfo.pktDelayTicks ≤ qe.send
      omega
    · rw [Function.update_of_ne hk]
      exact h.paced k
  · intro r hr
    rw [hread] at hr
    rw [hpushed.mapToWorker]
    exact h.read r hr

theorem Inv.popped (h : s.Inv) {qe : QE T} {qInfo : QueueInfo} {workerId i now : ℕ}
    (hpopped : s.queues.Popped s'.queues workerId i qe qInfo now)
    (haccepted : s'.accepted = s.accepted) (hread : s'.read = s.read ++ [(workerId, qe, now)]) :
    s'.Inv := by
  have hworker := h.worker workerId qe (List.mem_of_getElem? hpopped.top)
  have hpresent := hpopped.present hworker
  -- the queue of the element, with it and without
  have hperm : (s.queues.present qe.queueId).Perm
      (qe :: ((s.queues.items workerId).eraseIdx i).filter fun r => r.queueId = qe.queueId) := by
    have hfilter := (perm_cons_eraseIdx hpopped.top).filter fun r => r.queueId = qe.queueId
    rw [List.filter_cons_of_pos (by simp)] at hfilter
    rwa [RateQueues.present, hworker]
  constructor
  · intro w other hother
    rw [hpopped.items] at hother
    rw [hpopped.mapToWorker]
    by_cases hw : w = workerId
    · rw [hw, Function.update_self] at hother
      exact (h.worker _ other (List.mem_of_mem_eraseIdx hother)).trans hw.symm
    · rw [Function.update_of_ne hw] at hother
      exact h.worker w other hother
  · intro w other hother
    rw [hpopped.items] at hother
    rw [hpopped.queuesInfo, List.length_set]
    by_cases hw : w = workerId
    · rw [hw, Function.update_self] at hother
      exact h.known _ other (List.mem_of_mem_eraseIdx hother)
    · rw [Function.update_of_ne hw] at hother
      exact h.known w other hother
  · intro k info hinfo
    rw [hpopped.queuesInfo] at hinfo
    rw [hpresent]
    rcases getElem?_set_cases hinfo with ⟨rfl, rfl⟩ | ⟨hk, hinfo⟩
    · rw [Function.update_self]
      have hsize := h.size _ _ hpopped.info
      rw [hperm.length_eq, List.length_cons] at hsize
      show qInfo.size - 1 = _
      omega
    · rw [Function.update_of_ne hk]
      exact h.size k info hinfo
  · intro k info hinfo r hr
    rw [hpopped.queuesInfo] at hinfo
    rw [acceptedOf_congr haccepted] at hr
    rcases getElem?_set_cases hinfo with ⟨rfl, rfl⟩ | ⟨hk, hinfo⟩
    · exact h.sent _ _ hpopped.info r hr
    · exact h.sent k info hinfo r hr
  · intro k
    rw [acceptedOf_congr haccepted, readOf_append hread, hpresent]
    by_cases hk : k = qe.queueId
    · rw [hk, Function.update_self, Function.update_self, List.append_assoc, List.singleton_append]
      exact (h.exactlyOnce qe.queueId).trans (hperm.append_left _)
    · rw [Function.update_of_ne hk, Function.update_of_ne hk]
      exact h.exactlyOnce k
  · intro k
    rw [acceptedOf_congr haccepted]
    exact h.paced k
  · intro r hr
    rw [hread] at hr
    rw [hpopped.mapToWorker]
    rcases List.mem_append.mp hr with hr | hr
    · exact h.read r hr
    · rw [List.mem_singleton.mp hr]
      exact ⟨hworker.symm, hpopped.due⟩

theorem Inv.adjusted (h : s.Inv) {queueId : ℕ} {qInfo qInfo' : QueueInfo}
    (hadjusted : s.queues.Adjusted s'.queues queueId qInfo qInfo')
    (haccepted : s'.accepted = s.accepted) (hread : s'.read = s.read) : s'.Inv := by
  -- sizes and send times are as before
  have hinfos : ∀ (k : ℕ) (info : QueueInfo), s'.queues.queuesInfo[k]? = some info →
      ∃ info₀ : QueueInfo,
      s.queues.queuesInfo[k]? = some info₀ ∧ info.size = info₀.size ∧
        info.lastSent = info₀.lastSent := by
    intro k info hinfo
    rw [hadjusted.queuesInfo] at hinfo
    rcases getElem?_set_cases hinfo with ⟨rfl, rfl⟩ | ⟨hk, hinfo⟩
    · exact ⟨qInfo, hadjusted.info, hadjusted.size, hadjusted.lastSent⟩
    · exact ⟨info, hinfo, rfl, rfl⟩
  constructor
  · rw [hadjusted.items, hadjusted.mapToWorker]
    exact h.worker
  · rw [hadjusted.items, hadjusted.queuesInfo, List.length_set]
    exact h.known
  · intro k info hinfo
    obtain ⟨info₀, hinfo₀, hsize, -⟩ := hinfos k info hinfo
    rw [hadjusted.present, hsize]
    exact h.size k info₀ hinfo₀
  · intro k info hinfo r hr
    obtain ⟨info₀, hinfo₀, -, hlast⟩ := hinfos k info hinfo
    rw [acceptedOf_congr haccepted] at hr
    rw [hlast]
    exact h.sent k info₀ hinfo₀ r hr
  · intro k
    rw [acceptedOf_congr haccepted, readOf_congr hread, hadjusted.present]
    exact h.exactlyOnce k
  · intro k
    rw [acceptedOf_congr haccepted]
    exact h.paced k
  · rw [hread, hadjusted.mapToWorker]
    exact h.read

/-- **Step lemma.** -/
theorem Inv.of_effect (h : s.Inv) {op : Op T} (heffect : Effect s s' op) : s'.Inv := by
  cases heffect with
  | quiet hsame => exact hsame ▸ h
  | pushed qe qInfo hpushed haccepted hread => exact h.pushed hpushed haccepted hread
  | popped qe qInfo hpopped haccepted hread => exact h.popped hpopped haccepted hread
  | rate qInfo hadjusted haccepted hread => exact h.adjusted hadjusted haccepted hread
  | capacity qInfo hadjusted haccepted hread => exact h.adjusted hadjusted haccepted hread

/-! ### Order and capacity -/

/-- What keeps the elements of a queue in order: no two of them get the same send time. -/
def KeepsOrder (s : History T) : Op T → Prop
  | .pushFront queueId _ now => ∀ qInfo, s.queues.queuesInfo[queueId]? = some qInfo →
      qInfo.size < qInfo.capacity →
        qInfo.size = 0 ∨ qInfo.lastSent < now ∨ 0 < qInfo.pktDelayTicks
  | _ => True

/-- No capacity is lowered below what the queue holds. -/
def KeepsCapacity (s : History T) : Op T → Prop
  | .setCapacity queueId c => ∀ qInfo, s.queues.queuesInfo[queueId]? = some qInfo → qInfo.size ≤ c
  | _ => True

instance (s : History T) (op : Op T) : Decidable (s.KeepsOrder op) :=
  match op with
  | .pushFront queueId _ now => inferInstanceAs (Decidable (∀ qInfo ∈ s.queues.queuesInfo[queueId]?,
      qInfo.size < qInfo.capacity →
        qInfo.size = 0 ∨ qInfo.lastSent < now ∨ 0 < qInfo.pktDelayTicks))
  | .popBack .. | .setRate .. | .setCapacity .. => .isTrue trivial

instance (s : History T) (op : Op T) : Decidable (s.KeepsCapacity op) :=
  match op with
  | .setCapacity queueId c =>
      inferInstanceAs (Decidable (∀ qInfo ∈ s.queues.queuesInfo[queueId]?, qInfo.size ≤ c))
  | .pushFront .. | .popBack .. | .setRate .. => .isTrue trivial

/-- What has been read of a queue is what was accepted first. -/
def InOrder (s : History T) : Prop :=
  ∀ k, (s.acceptedOf k).map (·.1) = s.readOf k ++ (s.queues.present k).reverse

/-- No queue is over its capacity. -/
def WithinCapacity (s : History T) : Prop :=
  ∀ (k : ℕ) (qInfo : QueueInfo), s.queues.queuesInfo[k]? = some qInfo → qInfo.size ≤ qInfo.capacity

/-- The send times of the elements of a queue have kept increasing. -/
def Increasing (s : History T) : Prop :=
  ∀ k, (s.queues.present k).Pairwise fun a b => b.send < a.send

theorem Inv.increasing_pushed (hinv : s.Inv) (hincreasing : s.Increasing) {qe : QE T}
    {qInfo : QueueInfo} {item : T} {now : ℕ} (hpushed : s.queues.Pushed s'.queues qe qInfo now)
    (hkeeps : s.KeepsOrder (.pushFront qe.queueId item now)) : s'.Increasing := by
  intro k
  rw [hpushed.present]
  by_cases hk : k = qe.queueId
  · rw [hk, Function.update_self, List.pairwise_cons]
    refine ⟨fun other hother => ?_, hincreasing qe.queueId⟩
    have hsent : other.send ≤ qInfo.lastSent := by
      have hmem : other ∈ (s.acceptedOf qe.queueId).map (·.1) :=
        (hinv.exactlyOnce qe.queueId).mem_iff.mpr (List.mem_append_right _ hother)
      obtain ⟨r, hr, rfl⟩ := List.mem_map.mp hmem
      exact hinv.sent _ _ hpushed.info r hr
    have hpos : 0 < qInfo.size := by
      rw [hinv.size _ _ hpushed.info]
      exact List.length_pos_of_mem hother
    rw [hpushed.send, getNextTp]
    rcases hkeeps qInfo hpushed.info hpushed.room with hzero | hnow | hdelay <;> omega
  · rw [Function.update_of_ne hk]
    exact hincreasing k

theorem InOrder.pushed (h : s.InOrder) {qe : QE T} {qInfo : QueueInfo} {now : ℕ}
    (hpushed : s.queues.Pushed s'.queues qe qInfo now)
    (haccepted : s'.accepted = s.accepted ++ [(qe, qInfo.pktDelayTicks)])
    (hread : s'.read = s.read) : s'.InOrder := by
  intro k
  rw [acceptedOf_append haccepted, readOf_congr hread, hpushed.present]
  by_cases hk : k = qe.queueId
  · rw [hk, Function.update_self, Function.update_self, List.map_append, h, List.reverse_cons,
      List.append_assoc]
    rfl
  · rw [Function.update_of_ne hk, Function.update_of_ne hk]
    exact h k

theorem InOrder.popped (h : s.InOrder) (hinv : s.Inv) (hincreasing : s.Increasing) {qe : QE T}
    {qInfo : QueueInfo} {workerId i now : ℕ}
    (hpopped : s.queues.Popped s'.queues workerId i qe qInfo now)
    (haccepted : s'.accepted = s.accepted) (hread : s'.read = s.read ++ [(workerId, qe, now)]) :
    s'.InOrder ∧ s'.Increasing := by
  have hworker := hinv.worker workerId qe (List.mem_of_getElem? hpopped.top)
  have hpresent := hpopped.present hworker
  have hold : s.queues.present qe.queueId =
      (s.queues.items workerId).filter fun r => r.queueId = qe.queueId := by
    rw [RateQueues.present, hworker]
  -- the element that is read is the oldest of its queue
  have hlast : s.queues.present qe.queueId =
      ((s.queues.items workerId).eraseIdx i).filter (fun r => r.queueId = qe.queueId) ++ [qe] := by
    have hinc := hincreasing qe.queueId
    rw [hold] at hinc ⊢
    exact filter_eq_of_least hinc hpopped.top (by simp) hpopped.least
  constructor
  · intro k
    rw [acceptedOf_congr haccepted, readOf_append hread, hpresent]
    by_cases hk : k = qe.queueId
    · rw [hk, Function.update_self, Function.update_self, h, hlast, List.reverse_append,
        List.append_assoc]
      rfl
    · rw [Function.update_of_ne hk, Function.update_of_ne hk]
      exact h k
  · intro k
    rw [hpresent]
    by_cases hk : k = qe.queueId
    · have hinc := hincreasing qe.queueId
      rw [hlast] at hinc
      rw [hk, Function.update_self]
      exact (List.pairwise_append.mp hinc).1
    · rw [Function.update_of_ne hk]
      exact hincreasing k

theorem InOrder.adjusted (h : s.InOrder) (hincreasing : s.Increasing) {queueId : ℕ}
    {qInfo qInfo' : QueueInfo} (hadjusted : s.queues.Adjusted s'.queues queueId qInfo qInfo')
    (haccepted : s'.accepted = s.accepted) (hread : s'.read = s.read) :
    s'.InOrder ∧ s'.Increasing := by
  constructor
  · intro k
    rw [acceptedOf_congr haccepted, readOf_congr hread, hadjusted.present]
    exact h k
  · intro k
    rw [hadjusted.present]
    exact hincreasing k

/-- **Step lemma** for the order. -/
theorem InOrder.of_effect (h : s.InOrder) (hinv : s.Inv) (hincreasing : s.Increasing) {op : Op T}
    (hkeeps : s.KeepsOrder op) (heffect : Effect s s' op) : s'.InOrder ∧ s'.Increasing := by
  cases heffect with
  | quiet hsame => exact hsame ▸ ⟨h, hincreasing⟩
  | pushed qe qInfo hpushed haccepted hread =>
    exact ⟨h.pushed hpushed haccepted hread, hinv.increasing_pushed hincreasing hpushed hkeeps⟩
  | popped qe qInfo hpopped haccepted hread =>
    exact h.popped hinv hincreasing hpopped haccepted hread
  | rate qInfo hadjusted haccepted hread => exact h.adjusted hincreasing hadjusted haccepted hread
  | capacity qInfo hadjusted haccepted hread => exact h.adjusted hincreasing hadjusted haccepted hread

/-- **Step lemma** for the capacities. -/
theorem WithinCapacity.of_effect (h : s.WithinCapacity) {op : Op T} (hkeeps : s.KeepsCapacity op)
    (heffect : Effect s s' op) : s'.WithinCapacity := by
  -- one queue is written
  have hset : ∀ (queueId : ℕ) (qInfo : QueueInfo), qInfo.size ≤ qInfo.capacity →
      s'.queues.queuesInfo = s.queues.queuesInfo.set queueId qInfo → s'.WithinCapacity := by
    intro queueId qInfo hle hqueuesInfo k info hinfo
    rw [hqueuesInfo] at hinfo
    rcases getElem?_set_cases hinfo with ⟨rfl, rfl⟩ | ⟨-, hinfo⟩
    · exact hle
    · exact h k info hinfo
  cases heffect with
  | quiet hsame => exact hsame ▸ h
  | pushed qe qInfo hpushed =>
    apply hset _ _ _ hpushed.queuesInfo
    exact hpushed.room
  | popped qe qInfo hpopped =>
    apply hset _ _ _ hpopped.queuesInfo
    exact (Nat.sub_le _ _).trans (h _ _ hpopped.info)
  | rate qInfo hadjusted =>
    apply hset _ _ _ hadjusted.queuesInfo
    exact h _ qInfo hadjusted.info
  | capacity qInfo hadjusted =>
    apply hset _ _ _ hadjusted.queuesInfo
    exact hkeeps qInfo hadjusted.info

end Steps

/-! ### Runs -/

/-- What holds of the queues and of the history in any case. -/
structure Accounts (s : History T) : Prop where
  size : ∀ (k n : ℕ), s.queues.size k = some n → n = (s.queues.present k).length
  exactlyOnce : ∀ k, ((s.acceptedOf k).map (·.1)).Perm (s.readOf k ++ s.queues.present k)
  ownWorker : ∀ r ∈ s.read, r.1 = s.queues.mapToWorker r.2.1.queueId
  notEarly : ∀ r ∈ s.read, r.2.1.send ≤ r.2.2
  paced : ∀ (k i : ℕ) (a b : QE T × ℕ), (s.acceptedOf k)[i]? = some a →
    (s.acceptedOf k)[i + 1]? = some b → a.1.send + b.2 ≤ b.1.send
  fixedRate : ∀ (k d i n : ℕ) (a b : QE T × ℕ),
    (∀ (j : ℕ) (r : QE T × ℕ), i < j → j ≤ i + n → (s.acceptedOf k)[j]? = some r → d ≤ r.2) →
    (s.acceptedOf k)[i]? = some a → (s.acceptedOf k)[i + n]? = some b → a.1.send + n * d ≤ b.1.send
  prompt : ∀ (w now : ℕ), (∃ qe ∈ s.queues.items w, qe.send ≤ now) →
    ∃ i res, s.queues.popBack w i now = some res
  refused : ∀ (k : ℕ) (item : T) (now : ℕ) (q : RateQueues T),
    s.queues.pushFront k item now = some (none, q) ↔
      q = s.queues ∧ ∃ qInfo : QueueInfo, s.queues.info k = some qInfo ∧ qInfo.capacity ≤ qInfo.size

theorem Inv.accounts {s : History T} (h : s.Inv) : s.Accounts where
  size k n hsize := by
    obtain ⟨qInfo, hinfo, rfl⟩ := Option.map_eq_some_iff.mp hsize
    exact h.size k qInfo (info_eq_some hinfo)
  exactlyOnce := h.exactlyOnce
  ownWorker r hr := (h.read r hr).1
  notEarly r hr := (h.read r hr).2
  paced k i a b ha hb := by
    obtain ⟨hi, rfl⟩ := List.getElem?_eq_some_iff.mp ha
    obtain ⟨hi', rfl⟩ := List.getElem?_eq_some_iff.mp hb
    exact List.isChain_iff_getElem.mp (h.paced k) i hi'
  fixedRate k d i n a b hdelay ha hb := (h.paced k).add_mul_le hdelay ha hb
  prompt w now hdue := by
    obtain ⟨i, qe, htop, hleast, hdue⟩ := exists_least hdue
    have hknown := h.known w qe (List.mem_of_getElem? htop)
    have hqueue : s.queues.workersInfo[w]? = some (s.queues.items w) := by
      rw [items] at htop ⊢
      cases hqueue : s.queues.workersInfo[w]? with
      | none =>
        rw [hqueue] at htop
        cases htop
      | some queue => rfl
    refine ⟨i, ?_⟩
    rw [RateQueues.popBack, hqueue]
    simp only [Option.bind_eq_bind, Option.bind_some, htop]
    rw [if_pos ⟨hleast, hdue⟩, List.getElem?_eq_getElem hknown]
    exact ⟨_, rfl⟩
  refused k item now q := by
    constructor
    · intro hpush
      obtain ⟨qInfo, hinfo, hpush⟩ := Option.bind_eq_some_iff.mp hpush
      obtain ⟨queue, hqueue, hpush⟩ := Option.bind_eq_some_iff.mp hpush
      split at hpush
      next hfull =>
        cases hpush
        exact ⟨rfl, qInfo, by rw [info, hinfo]; simp [hqueue], hfull⟩
      next => cases hpush
    · rintro ⟨rfl, qInfo, hinfo, hfull⟩
      obtain ⟨qInfo', hqInfo, hbind⟩ := Option.bind_eq_some_iff.mp hinfo
      obtain ⟨queue, hqueue, heq⟩ := Option.bind_eq_some_iff.mp hbind
      cases heq
      rw [RateQueues.pushFront, hqInfo]
      simp only [Option.bind_eq_bind, Option.bind_some, hqueue]
      rw [if_pos hfull]
      rfl

/-- Empty queues. -/
def start (nbQueues nbWorkers capacity now : ℕ) (mapToWorker : ℕ → ℕ) : History T :=
  { queues := create nbQueues nbWorkers capacity now mapToWorker }

theorem present_create (nbQueues nbWorkers capacity now : ℕ) (mapToWorker : ℕ → ℕ) (k : ℕ) :
    (create nbQueues nbWorkers capacity now mapToWorker : RateQueues T).items k = [] ∧
      (create nbQueues nbWorkers capacity now mapToWorker : RateQueues T).present k = [] := by
  have hitems : ∀ w,
      (create nbQueues nbWorkers capacity now mapToWorker : RateQueues T).items w = [] := by
    intro w
    rw [items, create, List.getElem?_replicate]
    split <;> rfl
  refine ⟨hitems k, ?_⟩
  rw [RateQueues.present, hitems]
  rfl

section Start

variable {nbQueues nbWorkers capacity now : ℕ} {mapToWorker : ℕ → ℕ}

theorem size_start {k : ℕ} {qInfo : QueueInfo}
    (hinfo : (start nbQueues nbWorkers capacity now mapToWorker :
      History T).queues.queuesInfo[k]? = some qInfo) : qInfo.size = 0 := by
  rw [List.eq_of_mem_replicate (List.mem_of_getElem? hinfo)]

theorem inv_start : (start nbQueues nbWorkers capacity now mapToWorker : History T).Inv := by
  have hcreate := present_create (T := T) nbQueues nbWorkers capacity now mapToWorker
  constructor
  · intro w qe hqe
    exact absurd ((hcreate w).1 ▸ hqe) List.not_mem_nil
  · intro w qe hqe
    exact absurd ((hcreate w).1 ▸ hqe) List.not_mem_nil
  · intro k qInfo hinfo
    exact (size_start hinfo).trans (congrArg List.length (hcreate k).2).symm
  · intro k qInfo hinfo r hr
    exact absurd hr List.not_mem_nil
  · intro k
    show List.Perm [] (_ ++ (create nbQueues nbWorkers capacity now mapToWorker).present k)
    rw [(hcreate k).2]
    exact List.Perm.refl _
  · exact fun k => List.isChain_nil
  · intro r hr
    exact absurd hr List.not_mem_nil

theorem inOrder_start : (start nbQueues nbWorkers capacity now mapToWorker : History T).InOrder ∧
    (start nbQueues nbWorkers capacity now mapToWorker : History T).Increasing := by
  have hcreate := present_create (T := T) nbQueues nbWorkers capacity now mapToWorker
  constructor
  · intro k
    show [] = _ ++ ((create nbQueues nbWorkers capacity now mapToWorker).present k).reverse
    rw [(hcreate k).2]
    rfl
  · intro k
    show ((create nbQueues nbWorkers capacity now mapToWorker : RateQueues T).present k).Pairwise _
    rw [(hcreate k).2]
    exact List.Pairwise.nil

end Start

/-- **Run lemma.** -/
theorem inv_of_run {nbQueues nbWorkers capacity now : ℕ} {mapToWorker : ℕ → ℕ} {ops : List (Op T)}
    {s : History T}
    (hrun : runFrom step (start nbQueues nbWorkers capacity now mapToWorker) ops = some s) : s.Inv :=
  runFrom_invariant (fun _ _ _ h hstep => h.of_effect (step_effect hstep)) inv_start hrun

/-- **Ordering and pacing.**  In every run the elements that are accepted are read once, by the worker of
their queue, which does not wait when one is due, and not before their send time; these are the
delay in force apart.  Those of a queue
are read in order if no two of them get the same send time, and no queue is over its
capacity if none is lowered below what the queue holds. -/
theorem paced_and_ordered (nbQueues nbWorkers capacity now : ℕ) (mapToWorker : ℕ → ℕ)
    (ops : List (Op T)) {s : History T}
    (hrun : runFrom step (start nbQueues nbWorkers capacity now mapToWorker) ops = some s) :
    s.Accounts ∧
      (RunMeets step KeepsOrder (start nbQueues nbWorkers capacity now mapToWorker) ops →
        s.InOrder) ∧
      (RunMeets step KeepsCapacity (start nbQueues nbWorkers capacity now mapToWorker) ops →
        s.WithinCapacity) := by
  refine ⟨?_, fun hkeeps => ?_, fun hkeeps => ?_⟩
  · exact (inv_of_run hrun).accounts
  · have hend := runFrom_invariant_of_meets
      (I := fun s : History T => s.Inv ∧ s.InOrder ∧ s.Increasing)
      (fun s op s' h hop hstep => ⟨h.1.of_effect (step_effect hstep),
        h.2.1.of_effect h.1 h.2.2 hop (step_effect hstep)⟩) ⟨inv_start, inOrder_start⟩ hkeeps hrun
    exact hend.2.1
  · exact runFrom_invariant_of_meets (I := WithinCapacity)
      (fun s op s' h hop hstep => h.of_effect hop (step_effect hstep))
      (fun k qInfo hinfo => (size_start hinfo).symm ▸ Nat.zero_le _) hkeeps hrun

/-- Two queues of one worker, the first with a delay of five. -/
theorem paced_and_ordered_two : ∃ s : History ℕ,
    runFrom step (start 2 1 3 0 fun _ => 0) [.setRate 0 5, .pushFront 0 10 7, .pushFront 0 11 7,
      .pushFront 1 20 8, .popBack 0 2 8, .popBack 0 0 8, .setCapacity 0 1, .popBack 0 0 12] = some s ∧
    s.Accounts ∧ s.InOrder ∧ s.WithinCapacity := by
  refine ⟨_, rfl, ?_⟩
  have h := paced_and_ordered 2 1 3 0 (fun _ => 0) [.setRate 0 5, .pushFront 0 10 7, .pushFront 0 11 7,
    .pushFront 1 20 8, .popBack 0 2 8, .popBack 0 0 8, .setCapacity 0 1, .popBack 0 0 12] rfl
  exact ⟨h.1, h.2.1 (by decide), h.2.2 (by decide)⟩

/-- Four elements that come at one reading of the clock: the heap gives the third before the second. -/
theorem equal_times_reordered : ∃ s : History ℕ,
    runFrom step (start 1 1 4 0 fun _ => 0) [.pushFront 0 10 7, .pushFront 0 11 7, .pushFront 0 12 7,
      .pushFront 0 13 7, .popBack 0 3 7, .popBack 0 1 7] = some s ∧
    (s.readOf 0).map (·.e) = [10, 12] ∧ ¬ s.InOrder := by
  refine ⟨_, rfl, rfl, fun h => ?_⟩
  exact absurd (congrArg (List.map (·.e)) (h 0)) (by decide)

end History

end RateQueues

end Bm
