/-
# Events of the port monitor

`PortMonitorPassive::notify_` and `PortMonitorActive::monitor` (`port_monitor.cpp`): both decide under
the lock of the ports and call the callbacks after it has been released, so what one of them has
decided can be overtaken by what the other decides later.

* `isSome_lifeOf_iff`: the words that are prefixes of a sequence of lifetimes of a port;
* `Monitor.events_of_run`: the decisions are such words in every run, and so are the events that are
  delivered when none is overtaken.
-/
import Bmv2.Lib.Runs
import Mathlib.Data.List.AList

namespace Bm

/-- `PortMonitorIface::PortStatus`. -/
inductive PortStatus where
  | added
  | removed
  | up
  | down
  deriving DecidableEq

/-! ## Lifetimes -/

/-- A port that does not exist, that is down or that is up. -/
inductive Life where
  | absent
  | down
  | up
  deriving DecidableEq

/-- What an event makes of a port, if the event is one that can come. -/
def Life.next : Life → PortStatus → Option Life
  | .absent, .added => some .down
  | .down, .up => some .up
  | .up, .down => some .down
  | .down, .removed => some .absent
  | .up, .removed => some .absent
  | _, _ => none

/-- What a sequence of events makes of a port. -/
def Life.run (l : Life) (es : List PortStatus) : Option Life := es.foldlM Life.next l

@[simp] theorem Life.run_nil (l : Life) : l.run [] = some l := rfl

theorem Life.run_cons (l : Life) (e : PortStatus) (es : List PortStatus) :
    l.run (e :: es) = (l.next e).bind fun l' => l'.run es := rfl

theorem Life.run_append (l : Life) (es es' : List PortStatus) :
    l.run (es ++ es') = (l.run es).bind fun l' => l'.run es' := by
  rw [Life.run, List.foldlM_append]
  rfl

/-- What the events of a port make of it. -/
def lifeOf (es : List PortStatus) : Option Life := Life.absent.run es

/-- A lifetime, `ADDED (UP DOWN)* [UP] REMOVED`. -/
def lifetime (n : ℕ) (up : Bool) : List PortStatus :=
  .added :: ((List.replicate n [PortStatus.up, PortStatus.down]).flatten ++
    (if up then [.up] else []) ++ [.removed])

/-- A sequence of lifetimes. -/
def lifetimes (ls : List (ℕ × Bool)) : List PortStatus := (ls.map fun l => lifetime l.1 l.2).flatten

theorem Life.run_upDown (n : ℕ) :
    Life.down.run (List.replicate n [PortStatus.up, PortStatus.down]).flatten = some .down := by
  induction n with
  | zero => rfl
  | succ n ih =>
    rw [List.replicate_succ, List.flatten_cons, Life.run_append]
    exact ih

theorem Life.run_lifetime (n : ℕ) (up : Bool) : Life.absent.run (lifetime n up) = some .absent := by
  rw [lifetime, Life.run_cons, Life.next, Option.bind_some, List.append_assoc, Life.run_append,
    Life.run_upDown]
  cases up <;> rfl

theorem Life.run_lifetimes (ls : List (ℕ × Bool)) : lifeOf (lifetimes ls) = some .absent := by
  induction ls with
  | nil => rfl
  | cons l ls ih =>
    rw [lifetimes, List.map_cons, List.flatten_cons, lifeOf, Life.run_append, Life.run_lifetime]
    exact ih

/-- The sequences of events that bring a port to the end of its lifetime, and further lifetimes. -/
def Life.Rest : Life → List PortStatus → Prop
  | .absent, es => ∃ ls, es = lifetimes ls
  | .down, es => ∃ n up ls, .added :: es = lifetime n up ++ lifetimes ls
  | .up, es => ∃ n up ls, .added :: .up :: es = lifetime n up ++ lifetimes ls

theorem Life.exists_rest (l : Life) : ∃ es, l.Rest es := by
  cases l with
  | absent => exact ⟨_, [], rfl⟩
  | down => exact ⟨_, 0, false, [], rfl⟩
  | up => exact ⟨_, 0, true, [], rfl⟩

/-- A lifetime before the others. -/
theorem Life.rest_added {es : List PortStatus} (h : Life.down.Rest es) :
    Life.absent.Rest (.added :: es) := by
  obtain ⟨n, up, ls, h⟩ := h
  exact ⟨(n, up) :: ls, h⟩

/-- What may follow an event may follow it after the event. -/
theorem Life.rest_cons {l l' : Life} {e : PortStatus} {es : List PortStatus}
    (hnext : l.next e = some l') (h : l'.Rest es) : l.Rest (e :: es) := by
  cases l <;> cases e <;> cases hnext
  case absent.added => exact rest_added h
  case down.removed =>
    obtain ⟨ls, rfl⟩ := h
    exact ⟨0, false, ls, rfl⟩
  case down.up => exact h
  case up.removed =>
    obtain ⟨ls, rfl⟩ := h
    exact ⟨0, true, ls, rfl⟩
  case up.down =>
    -- one more pair in front
    obtain ⟨n, up, ls, h⟩ := h
    refine ⟨n + 1, up, ls, ?_⟩
    rw [lifetime, List.cons_append, List.cons.injEq] at h
    rw [h.2, lifetime, List.replicate_succ, List.flatten_cons]
    rfl

/-- **Lifetimes.**  The events that follow each other as they can are the prefixes of the sequences of
lifetimes. -/
theorem isSome_lifeOf_iff (es : List PortStatus) :
    (lifeOf es).isSome ↔ ∃ ls, es <+: lifetimes ls := by
  constructor
  · -- by the number of events, from any state of the port
    have hrest : ∀ (es : List PortStatus) (l : Life), (l.run es).isSome →
        ∃ es', l.Rest (es ++ es') := by
      intro es
      induction es with
      | nil => exact fun l _ => l.exists_rest
      | cons e es ih =>
        intro l h
        rw [Life.run_cons] at h
        cases hnext : l.next e with
        | none =>
          rw [hnext] at h
          cases h
        | some l' =>
          rw [hnext] at h
          obtain ⟨es', hes'⟩ := ih l' h
          exact ⟨es', Life.rest_cons hnext hes'⟩
    intro h
    obtain ⟨es', ls, heq⟩ := hrest es .absent h
    exact ⟨ls, es', heq⟩
  · rintro ⟨ls, es', heq⟩
    have hrun := Life.run_lifetimes ls
    rw [← heq, lifeOf, Life.run_append] at hrun
    cases hes : lifeOf es with
    | none =>
      rw [show Life.absent.run es = none from hes] at hrun
      cases hrun
    | some l => rfl

/-! ## The monitor -/

/-- `curr_ports`: whether a port is up. -/
abbrev CurrPorts := AList fun _ : ℕ => Bool

/-- What `notify_` does under the lock; `none` when the event is invalid. -/
def notifyPorts (currPorts : CurrPorts) (portNum : ℕ) (evt : PortStatus) : Option CurrPorts :=
  match evt, currPorts.lookup portNum with
  | .added, none => some (currPorts.insert portNum false)
  | .removed, some _ => some (currPorts.erase portNum)
  | .up, some false => some (currPorts.insert portNum true)
  | .down, some true => some (currPorts.insert portNum false)
  | _, _ => none

/-- The callback that a change of the status calls for. -/
def statusChange (wasUp isUp : Bool) : Option PortStatus :=
  if !isUp && wasUp then some .down else if isUp && !wasUp then some .up else none

/-- The statuses that `monitor` writes under the lock. -/
def polledPorts (currPorts : CurrPorts) (pStatusFn : ℕ → Bool) : CurrPorts where
  entries := currPorts.entries.map fun port => ⟨port.1, pStatusFn port.1⟩
  nodupKeys := by
    rw [List.NodupKeys, List.keys, List.map_map]
    exact currPorts.nodupKeys

/-- `cbs_todo`, by port. -/
def polledEvents (currPorts : CurrPorts) (pStatusFn : ℕ → Bool) : List (ℕ × PortStatus) :=
  (currPorts.entries.filterMap fun port =>
    (statusChange port.2 (pStatusFn port.1)).map (port.1, ·)).insertionSort fun a b => a.1 ≤ b.1

/-- The ports, the events of the calls of `notify` that have released the lock and have still to call
`event_handler`, and those of the polling thread; with all the events that have been decided
and those that have been delivered. -/
structure Monitor where
  currPorts : CurrPorts := ∅
  notifying : List (ℕ × PortStatus) := []
  cbsTodo : List (ℕ × PortStatus) := []
  decided : List (ℕ × PortStatus) := []
  delivered : List (ℕ × PortStatus) := []

namespace Monitor

/-- A step of one of the threads: a call of `notify` up to the release of the lock, the
callbacks of one of these calls, a pass up to the release of the lock, and the next callback of the pass. -/
inductive Op where
  | notify (portNum : ℕ) (evt : PortStatus)
  | notifyCb (i : ℕ)
  | poll (pStatusFn : ℕ → Bool)
  | pollCb

/-- One step; a pass starts when the one before it is over. -/
def step (m : Monitor) : Op → Option Monitor
  | .notify portNum evt =>
      match notifyPorts m.currPorts portNum evt with
      | none => some m
      | some currPorts =>
          some { m with
            currPorts
            notifying := m.notifying ++ [(portNum, evt)]
            decided := m.decided ++ [(portNum, evt)] }
  | .notifyCb i =>
      (m.notifying[i]?).map fun e =>
        { m with notifying := m.notifying.eraseIdx i, delivered := m.delivered ++ [e] }
  | .poll pStatusFn =>
      if m.cbsTodo = [] then
        some { m with
          currPorts := polledPorts m.currPorts pStatusFn
          cbsTodo := polledEvents m.currPorts pStatusFn
          decided := m.decided ++ polledEvents m.currPorts pStatusFn }
      else none
  | .pollCb =>
      match m.cbsTodo with
      | [] => none
      | e :: cbsTodo => some { m with cbsTodo, delivered := m.delivered ++ [e] }

/-- The events of a port. -/
def eventsOf (events : List (ℕ × PortStatus)) (portNum : ℕ) : List PortStatus :=
  (events.filter fun e => e.1 = portNum).map (·.2)

/-- What has been decided and not delivered. -/
def pending (m : Monitor) : List (ℕ × PortStatus) := m.notifying ++ m.cbsTodo

/-- What the monitor records of a port. -/
def recorded (m : Monitor) (portNum : ℕ) : Life :=
  match m.currPorts.lookup portNum with
  | none => .absent
  | some false => .down
  | some true => .up

/-! ### What is decided -/

theorem eventsOf_append (es es' : List (ℕ × PortStatus)) (portNum : ℕ) :
    eventsOf (es ++ es') portNum = eventsOf es portNum ++ eventsOf es' portNum := by
  rw [eventsOf, List.filter_append, List.map_append]
  rfl

theorem eventsOf_singleton_self (portNum : ℕ) (evt : PortStatus) :
    eventsOf [(portNum, evt)] portNum = [evt] := by
  simp [eventsOf]

theorem eventsOf_singleton_of_ne {portNum portNum' : ℕ} (h : portNum ≠ portNum') (evt : PortStatus) :
    eventsOf [(portNum, evt)] portNum' = [] := by
  simp [eventsOf, h]

theorem lookup_polledPorts (currPorts : CurrPorts) (pStatusFn : ℕ → Bool) (portNum : ℕ) :
    (polledPorts currPorts pStatusFn).lookup portNum =
      (currPorts.lookup portNum).map fun _ => pStatusFn portNum :=
  List.dlookup_map₂ (f := fun a _ => pStatusFn a) portNum

/-- A pass decides at most one event of a port. -/
theorem eventsOf_filterMap (pStatusFn : ℕ → Bool) (portNum : ℕ) {ports : List (Σ _ : ℕ, Bool)}
    (hnodup : ports.NodupKeys) :
    eventsOf (ports.filterMap fun port =>
        (statusChange port.2 (pStatusFn port.1)).map (port.1, ·)) portNum =
      ((ports.dlookup portNum).bind fun up => statusChange up (pStatusFn portNum)).toList := by
  induction ports with
  | nil => rfl
  | cons port ports ih =>
    obtain ⟨port, up⟩ := port
    obtain ⟨hnew, htail⟩ := List.nodupKeys_cons.mp hnodup
    have hsplit : ∀ es, eventsOf (((statusChange up (pStatusFn port)).map (port, ·)).toList ++ es) portNum =
        eventsOf ((statusChange up (pStatusFn port)).map (port, ·)).toList portNum ++
          eventsOf es portNum := fun es => eventsOf_append _ _ _
    have hcons : (⟨port, up⟩ :: ports : List (Σ _ : ℕ, Bool)).filterMap (fun port =>
          (statusChange port.2 (pStatusFn port.1)).map (port.1, ·)) =
        ((statusChange up (pStatusFn port)).map (port, ·)).toList ++ ports.filterMap fun port =>
          (statusChange port.2 (pStatusFn port.1)).map (port.1, ·) := by
      rw [List.filterMap_cons]
      cases statusChange up (pStatusFn port) <;> rfl
    rw [hcons, hsplit, ih htail]
    by_cases hport : port = portNum
    · subst hport
      have hnone : ports.dlookup port = none := List.dlookup_eq_none.mpr hnew
      rw [hnone, List.dlookup_cons_eq]
      cases hchange : statusChange up (pStatusFn port) with
      | none => simp [eventsOf, hchange]
      | some evt => simp [eventsOf, hchange]
    · rw [List.dlookup_cons_ne _ _ (Ne.symm hport)]
      cases statusChange up (pStatusFn port) with
      | none => rfl
      | some evt => simp [eventsOf, hport]

theorem eventsOf_polledEvents (currPorts : CurrPorts) (pStatusFn : ℕ → Bool) (portNum : ℕ) :
    eventsOf (polledEvents currPorts pStatusFn) portNum =
      ((currPorts.lookup portNum).bind fun up => statusChange up (pStatusFn portNum)).toList := by
  have hperm := ((List.perm_insertionSort (fun a b : ℕ × PortStatus => a.1 ≤ b.1)
    (currPorts.entries.filterMap fun port =>
      (statusChange port.2 (pStatusFn port.1)).map (port.1, ·))).filter
        fun e => e.1 = portNum).map (·.2)
  -- the order of the ports does not matter for one of them
  have hevents := eventsOf_filterMap pStatusFn portNum currPorts.nodupKeys
  rw [eventsOf] at hevents
  rw [hevents] at hperm
  show eventsOf (polledEvents currPorts pStatusFn) portNum = ((currPorts.entries.dlookup portNum).bind _).toList
  cases hchange : (currPorts.entries.dlookup portNum).bind fun up => statusChange up (pStatusFn portNum) with
  | none =>
    rw [hchange] at hperm
    exact hperm.eq_nil
  | some evt =>
    rw [hchange] at hperm
    exact List.perm_singleton.mp hperm

/-! ### Steps -/

/-- What a step does: it decides events, in which case it changes what is recorded, or it delivers one. -/
inductive Effect (m m' : Monitor) : Prop
  | quiet (hsame : m' = m)
  | decides (es : List (ℕ × PortStatus)) (hdecided : m'.decided = m.decided ++ es)
      (hpending : m'.pending.Perm (m.pending ++ es)) (hdelivered : m'.delivered = m.delivered)
      (hrecorded : ∀ portNum, (m.recorded portNum).run (eventsOf es portNum) = some (m'.recorded portNum))
  | delivers (e : ℕ × PortStatus) (hdecided : m'.decided = m.decided)
      (hpending : m.pending.Perm (e :: m'.pending)) (hdelivered : m'.delivered = m.delivered ++ [e])
      (hrecorded : m'.recorded = m.recorded)

/-- What is recorded of a port, read off its entry. -/
def lifeOfEntry : Option Bool → Life
  | none => .absent
  | some false => .down
  | some true => .up

theorem recorded_eq (m : Monitor) (portNum : ℕ) :
    m.recorded portNum = lifeOfEntry (m.currPorts.lookup portNum) := by
  rw [recorded]
  rcases m.currPorts.lookup portNum with _ | _ | _ <;> rfl

/-- The decision of `notify_` is the one that the life of the port allows. -/
theorem next_of_notifyPorts {currPorts currPorts' : CurrPorts} {portNum : ℕ} {evt : PortStatus}
    (h : notifyPorts currPorts portNum evt = some currPorts') :
    (lifeOfEntry (currPorts.lookup portNum)).next evt =
        some (lifeOfEntry (currPorts'.lookup portNum)) ∧
      ∀ portNum', portNum' ≠ portNum → currPorts'.lookup portNum' = currPorts.lookup portNum' := by
  have hinsert : ∀ up, (currPorts.insert portNum up).lookup portNum = some up ∧
      ∀ portNum', portNum' ≠ portNum →
        (currPorts.insert portNum up).lookup portNum' = currPorts.lookup portNum' :=
    fun up => ⟨AList.lookup_insert _, fun portNum' hne => AList.lookup_insert_ne hne⟩
  have herase : (currPorts.erase portNum).lookup portNum = none ∧
      ∀ portNum', portNum' ≠ portNum →
        (currPorts.erase portNum).lookup portNum' = currPorts.lookup portNum' :=
    ⟨AList.lookup_erase _ _, fun portNum' hne => AList.lookup_erase_ne hne⟩
  rcases hport : currPorts.lookup portNum with _ | _ | _ <;> cases evt <;>
    simp only [notifyPorts, hport, reduceCtorEq] at h <;> cases h
  case none.added.refl =>
    rw [(hinsert false).1]
    exact ⟨rfl, (hinsert false).2⟩
  case some.false.removed.refl =>
    rw [herase.1]
    exact ⟨rfl, herase.2⟩
  case some.false.up.refl =>
    rw [(hinsert true).1]
    exact ⟨rfl, (hinsert true).2⟩
  case some.true.removed.refl =>
    rw [herase.1]
    exact ⟨rfl, herase.2⟩
  case some.true.down.refl =>
    rw [(hinsert false).1]
    exact ⟨rfl, (hinsert false).2⟩

theorem step_effect {m m' : Monitor} {op : Op} (h : m.step op = some m') : Effect m m' := by
  cases op with
  | notify portNum evt =>
    rw [step] at h
    cases hports : notifyPorts m.currPorts portNum evt with
    | none =>
      rw [hports] at h
      cases h
      exact .quiet rfl
    | some currPorts =>
      rw [hports] at h
      cases h
      obtain ⟨hnext, hother⟩ := next_of_notifyPorts hports
      refine .decides [(portNum, evt)] rfl ?_ rfl fun portNum' => ?_
      · simp only [pending, List.append_assoc]
        exact (List.perm_append_comm).append_left _
      · rw [recorded_eq, recorded_eq]
        by_cases hport : portNum' = portNum
        · subst hport
          rw [eventsOf_singleton_self, Life.run_cons, hnext]
          rfl
        · rw [eventsOf_singleton_of_ne (Ne.symm hport), hother portNum' hport]
          rfl
  | notifyCb i =>
    obtain ⟨e, he, rfl⟩ := Option.map_eq_some_iff.mp h
    refine .delivers e rfl ?_ rfl rfl
    obtain ⟨hi, rfl⟩ := List.getElem?_eq_some_iff.mp he
    exact (List.getElem_cons_eraseIdx_perm hi).symm.append_right _
  | poll pStatusFn =>
    rw [step] at h
    split at h
    next hidle =>
      cases h
      refine .decides (polledEvents m.currPorts pStatusFn) rfl ?_ rfl fun portNum => ?_
      · rw [pending, pending, hidle, List.append_nil]
      · rw [recorded_eq, recorded_eq, eventsOf_polledEvents, lookup_polledPorts]
        cases m.currPorts.lookup portNum with
        | none => rfl
        | some up =>
          cases up <;> cases pStatusFn portNum <;> rfl
    next => cases h
  | pollCb =>
    rw [step] at h
    cases htodo : m.cbsTodo with
    | nil =>
      rw [htodo] at h
      cases h
    | cons e cbsTodo =>
      rw [htodo] at h
      cases h
      refine .delivers e rfl ?_ rfl rfl
      rw [pending, pending, htodo]
      exact List.perm_middle

/-! ### Runs -/

/-- The records and the decisions agree, and so do the decisions and the deliveries. -/
structure Inv (m : Monitor) : Prop where
  recorded : ∀ portNum, lifeOf (eventsOf m.decided portNum) = some (m.recorded portNum)
  delivered : m.decided.Perm (m.delivered ++ m.pending)

/-- **Step lemma.** -/
theorem Inv.of_effect {m m' : Monitor} (h : m.Inv) (heffect : Effect m m') : m'.Inv := by
  cases heffect with
  | quiet hsame => exact hsame ▸ h
  | decides es hdecided hpending hdelivered hrecorded =>
    constructor
    · intro portNum
      rw [hdecided, eventsOf_append, lifeOf, Life.run_append,
        show Life.absent.run _ = _ from h.recorded portNum]
      exact hrecorded portNum
    · rw [hdecided, hdelivered]
      calc m.decided ++ es
          |>.Perm (m.delivered ++ m.pending ++ es) := h.delivered.append_right es
        _ |>.Perm (m.delivered ++ (m.pending ++ es)) := by rw [List.append_assoc]
        _ |>.Perm (m.delivered ++ m'.pending) := hpending.symm.append_left _
  | delivers e hdecided hpending hdelivered hrecorded =>
    constructor
    · intro portNum
      rw [hdecided, hrecorded]
      exact h.recorded portNum
    · rw [hdecided, hdelivered, List.append_assoc]
      exact h.delivered.trans (hpending.append_left _)

/-- What keeps the events of a port in order: the event that is delivered is the oldest one of its port
that has been decided and not delivered. -/
def KeepsOrder (m : Monitor) : Op → Prop
  | .notifyCb i => ∀ e ∈ m.notifying[i]?,
      (eventsOf m.decided e.1)[(eventsOf m.delivered e.1).length]? = some e.2
  | .pollCb => ∀ e ∈ m.cbsTodo.head?,
      (eventsOf m.decided e.1)[(eventsOf m.delivered e.1).length]? = some e.2
  | _ => True

instance (m : Monitor) (op : Op) : Decidable (m.KeepsOrder op) :=
  match op with
  | .notifyCb i => inferInstanceAs (Decidable (∀ e ∈ m.notifying[i]?,
      (eventsOf m.decided e.1)[(eventsOf m.delivered e.1).length]? = some e.2))
  | .pollCb => inferInstanceAs (Decidable (∀ e ∈ m.cbsTodo.head?,
      (eventsOf m.decided e.1)[(eventsOf m.delivered e.1).length]? = some e.2))
  | .notify .. | .poll _ => .isTrue trivial

/-- What has been delivered of a port is what was decided first. -/
def InOrder (m : Monitor) : Prop :=
  ∀ portNum, eventsOf m.delivered portNum <+: eventsOf m.decided portNum

theorem prefix_append_of_getElem? {α : Type} {l l' : List α} {a : α} (h : l <+: l')
    (ha : l'[l.length]? = some a) : l ++ [a] <+: l' := by
  obtain ⟨t, rfl⟩ := h
  rw [List.getElem?_append_right le_rfl, Nat.sub_self] at ha
  cases t with
  | nil => cases ha
  | cons b t =>
    cases ha
    exact ⟨t, by rw [List.append_assoc, List.singleton_append]⟩

/-- The oldest event of a port is delivered. -/
theorem InOrder.delivers {m m' : Monitor} (h : m.InOrder) {e : ℕ × PortStatus}
    (hdecided : m'.decided = m.decided) (hdelivered : m'.delivered = m.delivered ++ [e])
    (holdest : (eventsOf m.decided e.1)[(eventsOf m.delivered e.1).length]? = some e.2) :
    m'.InOrder := by
  intro portNum
  rw [hdecided, hdelivered, eventsOf_append]
  obtain ⟨port, evt⟩ := e
  by_cases hport : port = portNum
  · subst hport
    rw [eventsOf_singleton_self]
    exact prefix_append_of_getElem? (h port) holdest
  · rw [eventsOf_singleton_of_ne hport, List.append_nil]
    exact h portNum

/-- **Step lemma** for the order. -/
theorem InOrder.step {m m' : Monitor} (h : m.InOrder) {op : Op} (hkeeps : m.KeepsOrder op)
    (hstep : m.step op = some m') : m'.InOrder := by
  cases op with
  | notify portNum evt =>
    rw [Monitor.step] at hstep
    split at hstep <;> cases hstep
    · exact h
    · exact fun port => (h port).trans ⟨_, (eventsOf_append _ _ _).symm⟩
  | notifyCb i =>
    obtain ⟨e, he, rfl⟩ := Option.map_eq_some_iff.mp hstep
    exact h.delivers rfl rfl (hkeeps e he)
  | poll pStatusFn =>
    rw [Monitor.step] at hstep
    split at hstep <;> cases hstep
    exact fun port => (h port).trans ⟨_, (eventsOf_append _ _ _).symm⟩
  | pollCb =>
    rw [Monitor.step] at hstep
    cases htodo : m.cbsTodo with
    | nil =>
      rw [htodo] at hstep
      cases hstep
    | cons e cbsTodo =>
      rw [htodo] at hstep
      cases hstep
      exact h.delivers rfl rfl (hkeeps e (by rw [htodo]; rfl))

/-- The events that are delivered are those of the lifetimes of the ports, and end where the records
are when none is pending. -/
structure Lawful (m : Monitor) : Prop where
  lifetimes : ∀ portNum, ∃ ls, eventsOf m.delivered portNum <+: lifetimes ls
  recorded : ∀ portNum, eventsOf m.pending portNum = [] →
    lifeOf (eventsOf m.delivered portNum) = some (m.recorded portNum)

theorem Inv.lawful {m : Monitor} (h : m.Inv) (horder : m.InOrder) : m.Lawful := by
  constructor
  · intro portNum
    have hdecided : ∃ ls, eventsOf m.decided portNum <+: lifetimes ls := by
      rw [← isSome_lifeOf_iff, h.recorded]
      rfl
    obtain ⟨ls, hls⟩ := hdecided
    exact ⟨ls, (horder portNum).trans hls⟩
  · intro portNum hnone
    -- as many as have been decided, so all of them
    have hperm : (eventsOf m.decided portNum).Perm (eventsOf (m.delivered ++ m.pending) portNum) :=
      (h.delivered.filter _).map _
    rw [eventsOf_append, hnone, List.append_nil] at hperm
    rw [(horder portNum).eq_of_length hperm.length_eq.symm]
    exact h.recorded portNum

/-- **Events of the ports.**  In every run the decisions are those of lifetimes, end where the records
are, and are delivered once; the deliveries of a port are those of lifetimes as well when no event
of a port overtakes another. -/
theorem events_of_run (ops : List Op) {m : Monitor} (hrun : runFrom step {} ops = some m) :
    (∀ portNum, (∃ ls, eventsOf m.decided portNum <+: lifetimes ls) ∧
      lifeOf (eventsOf m.decided portNum) = some (m.recorded portNum)) ∧
    m.decided.Perm (m.delivered ++ m.pending) ∧ (RunMeets step KeepsOrder {} ops → m.Lawful) := by
  have hinv : m.Inv := runFrom_invariant (fun m op m' h hstep => h.of_effect (step_effect hstep))
    ⟨fun _ => rfl, List.Perm.refl _⟩ hrun
  refine ⟨fun portNum => ⟨?_, hinv.recorded portNum⟩, hinv.delivered, fun hkeeps => ?_⟩
  · rw [← isSome_lifeOf_iff, hinv.recorded]
    rfl
  · exact hinv.lawful (runFrom_invariant_of_meets (I := InOrder)
      (fun m op m' h hop hstep => h.step hop hstep) (fun _ => List.prefix_refl _) hkeeps hrun)

/-- A port that is added, found up and removed. -/
theorem events_of_run_removed : ∃ m : Monitor,
    runFrom step {} [.notify 1 .added, .notifyCb 0, .poll fun _ => true, .pollCb, .notify 1 .removed,
      .notifyCb 0] = some m ∧
    eventsOf m.delivered 1 = [.added, .up, .removed] ∧ m.Lawful := by
  refine ⟨_, rfl, by decide, ?_⟩
  have h := events_of_run [.notify 1 .added, .notifyCb 0, .poll fun _ => true, .pollCb,
    .notify 1 .removed, .notifyCb 0] rfl
  exact h.2.2 (by decide)

/-- A pass between the decision of `notify_` and its callbacks: the port is up before it is added. -/
theorem up_before_added : ∃ m : Monitor,
    runFrom step {} [.notify 1 .added, .poll fun _ => true, .pollCb, .notifyCb 0] = some m ∧
    eventsOf m.delivered 1 = [.up, .added] ∧ ¬ m.Lawful := by
  refine ⟨_, rfl, by decide, fun h => ?_⟩
  exact absurd ((isSome_lifeOf_iff _).mpr (h.lifetimes 1)) (by decide)

end Monitor

end Bm
