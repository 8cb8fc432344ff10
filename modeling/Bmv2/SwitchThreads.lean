/-
# The threads of the switch

The receive thread, the ingress thread, the egress threads and the transmit thread of
`simple_switch` (`simple_switch.cpp`) hand packets to one another through `input_buffer`,
`egress_buffers` and `output_buffer`.  What an iteration does with its packet is left
open here: each step of a thread is one of the calls that the iteration can make.

The ingress thread reads `input_buffer` alone, and it also writes to it, to resubmit a
packet.  When the buffer is full at that moment the thread waits for itself.
-/
import Bmv2.Lib.Runs
import Bmv2.Queues

namespace Bm

/-- `nb_egress_threads`. -/
abbrev nbEgressThreads : ℕ := 4

/-! ## The states of the threads -/

/-- Where the receive thread is: between packets, or waiting in `input_buffer.push_front`. -/
inductive ReceiveState (Pkt : Type) where
  | idle
  | pushing (packet : Pkt)

/-- Where the ingress thread is: in `input_buffer.pop_back`, in an iteration, or waiting in
`input_buffer.push_front`. -/
inductive IngressState (Pkt : Type) where
  | popping
  | processing (packet : Pkt)
  | pushing (packet : Pkt)

/-- Where an egress thread is: in `egress_buffers.pop_back`, in an iteration, or waiting in
`push_front` of `input_buffer` or of `output_buffer`. -/
inductive EgressState (Pkt : Type) where
  | popping
  | processing (port : ℕ) (packet : Pkt)
  | pushingInput (packet : Pkt)
  | pushingOutput (packet : Pkt)
  deriving DecidableEq

/-- Where the transmit thread is: in `output_buffer.pop_back`, or sending a packet. -/
inductive TransmitState (Pkt : Type) where
  | popping
  | transmitting (packet : Pkt)

/-- The queues and the threads. -/
structure SwitchThreads (Pkt : Type) where
  inputBuffer : Queue Pkt
  egressBuffers : QueueingLogicRL Pkt
  outputBuffer : Queue Pkt
  receive : ReceiveState Pkt := .idle
  ingress : IngressState Pkt := .popping
  egress : Fin nbEgressThreads → EgressState Pkt := fun _ => .popping
  transmit : TransmitState Pkt := .popping

/-- The threads. -/
inductive SwitchThread where
  | receive
  | ingress
  | egress (workerId : Fin nbEgressThreads)
  | transmit
  deriving DecidableEq

/-- The calls of the threads. A resubmitted, recirculated or cloned packet is another packet
than the one that the iteration works on. -/
inductive ThreadOp (Pkt : Type) where
  | receive (packet : Pkt)
  | receiveResume
  | ingressPop
  | ingressEnqueue (egressPort : ℕ) (packet : Pkt) (now : ℕ)
  | ingressResubmit (packetCopy : Pkt)
  | ingressDone
  | ingressResume
  | egressPop (workerId : Fin nbEgressThreads) (i now : ℕ)
  | egressEnqueue (workerId : Fin nbEgressThreads) (egressPort : ℕ) (packetCopy : Pkt) (now : ℕ)
  | egressDrop (workerId : Fin nbEgressThreads)
  | egressRecirculate (workerId : Fin nbEgressThreads) (packetCopy : Pkt)
  | egressOutput (workerId : Fin nbEgressThreads)
  | egressResume (workerId : Fin nbEgressThreads)
  | transmitPop
  | transmitDone

/-- The thread that makes a call. -/
def ThreadOp.thread {Pkt : Type} : ThreadOp Pkt → SwitchThread
  | .receive _ | .receiveResume => .receive
  | .ingressPop | .ingressEnqueue .. | .ingressResubmit _ | .ingressDone | .ingressResume => .ingress
  | .egressPop workerId .. | .egressEnqueue workerId .. | .egressDrop workerId
  | .egressRecirculate workerId _ | .egressOutput workerId | .egressResume workerId =>
    .egress workerId
  | .transmitPop | .transmitDone => .transmit

namespace SwitchThreads

variable {Pkt : Type}

/-- The switch before the first packet. -/
def start (inputCapacity maxPort egressCapacity outputCapacity : ℕ) : SwitchThreads Pkt where
  inputBuffer := { capacity := inputCapacity }
  egressBuffers := .create maxPort nbEgressThreads egressCapacity 0
  outputBuffer := { capacity := outputCapacity }

/-- An egress thread moves on. -/
def setEgress (s : SwitchThreads Pkt) (workerId : Fin nbEgressThreads) (state : EgressState Pkt) :
    SwitchThreads Pkt :=
  { s with egress := Function.update s.egress workerId state }

/-- One call of a thread; `none` when the thread is not there, waits, or throws. -/
def step (s : SwitchThreads Pkt) : ThreadOp Pkt → Option (SwitchThreads Pkt)
  | .receive packet => match s.receive with
    | .idle => match s.inputBuffer.pushFront packet with
      | some inputBuffer => some { s with inputBuffer := inputBuffer }
      | none => some { s with receive := .pushing packet }
    | _ => none
  | .receiveResume => match s.receive with
    | .pushing packet => (s.inputBuffer.pushFront packet).map fun inputBuffer =>
        { s with inputBuffer := inputBuffer, receive := .idle }
    | _ => none
  | .ingressPop => match s.ingress with
    | .popping => s.inputBuffer.popBack.map fun (packet, inputBuffer) =>
        { s with inputBuffer := inputBuffer, ingress := .processing packet }
    | _ => none
  | .ingressEnqueue egressPort packet now => match s.ingress with
    | .processing _ => (s.egressBuffers.pushFront egressPort packet now).map
        fun (_, egressBuffers) => { s with egressBuffers := egressBuffers }
    | _ => none
  | .ingressResubmit packetCopy => match s.ingress with
    | .processing _ => match s.inputBuffer.pushFront packetCopy with
      | some inputBuffer => some { s with inputBuffer := inputBuffer, ingress := .popping }
      | none => some { s with ingress := .pushing packetCopy }
    | _ => none
  | .ingressDone => match s.ingress with
    | .processing _ => some { s with ingress := .popping }
    | _ => none
  | .ingressResume => match s.ingress with
    | .pushing packet => (s.inputBuffer.pushFront packet).map fun inputBuffer =>
        { s with inputBuffer := inputBuffer, ingress := .popping }
    | _ => none
  | .egressPop workerId i now => match s.egress workerId with
    | .popping => (s.egressBuffers.popBack workerId i now).map
        fun ((port, packet), egressBuffers) =>
          { s with egressBuffers := egressBuffers }.setEgress workerId (.processing port packet)
    | _ => none
  | .egressEnqueue workerId egressPort packetCopy now => match s.egress workerId with
    | .processing _ _ => (s.egressBuffers.pushFront egressPort packetCopy now).map
        fun (_, egressBuffers) => { s with egressBuffers := egressBuffers }
    | _ => none
  | .egressDrop workerId => match s.egress workerId with
    | .processing _ _ => some (s.setEgress workerId .popping)
    | _ => none
  | .egressRecirculate workerId packetCopy => match s.egress workerId with
    | .processing _ _ => match s.inputBuffer.pushFront packetCopy with
      | some inputBuffer => some ({ s with inputBuffer := inputBuffer }.setEgress workerId .popping)
      | none => some (s.setEgress workerId (.pushingInput packetCopy))
    | _ => none
  | .egressOutput workerId => match s.egress workerId with
    | .processing _ packet => match s.outputBuffer.pushFront packet with
      | some outputBuffer => some ({ s with outputBuffer := outputBuffer }.setEgress workerId .popping)
      | none => some (s.setEgress workerId (.pushingOutput packet))
    | _ => none
  | .egressResume workerId => match s.egress workerId with
    | .pushingInput packet => (s.inputBuffer.pushFront packet).map fun inputBuffer =>
        { s with inputBuffer := inputBuffer }.setEgress workerId .popping
    | .pushingOutput packet => (s.outputBuffer.pushFront packet).map fun outputBuffer =>
        { s with outputBuffer := outputBuffer }.setEgress workerId .popping
    | _ => none
  | .transmitPop => match s.transmit with
    | .popping => s.outputBuffer.popBack.map fun (packet, outputBuffer) =>
        { s with outputBuffer := outputBuffer, transmit := .transmitting packet }
    | _ => none
  | .transmitDone => match s.transmit with
    | .transmitting _ => some { s with transmit := .popping }
    | _ => none

/-! ## Blocked threads -/

/-- A packet is in one of the queues. -/
def Queued (s : SwitchThreads Pkt) : Prop :=
  s.inputBuffer.queue ≠ [] ∨ s.outputBuffer.queue ≠ [] ∨
    ∃ workerId : Fin nbEgressThreads, s.egressBuffers.items workerId ≠ []

/-- Whatever the threads do from now on, a thread never makes a call that goes through. -/
def BlockedForEver (s : SwitchThreads Pkt) (thread : SwitchThread) : Prop :=
  ∀ ops t, runFrom step s ops = some t → ∀ op : ThreadOp Pkt, op.thread = thread → step t op = none

/-- All threads that process packets are blocked for ever with a packet in a queue. -/
def Deadlocked (s : SwitchThreads Pkt) : Prop :=
  s.Queued ∧ ∀ thread, thread ≠ .receive → s.BlockedForEver thread

/-- The ingress thread, which alone reads `input_buffer`, waits to write to it. -/
def BlocksOnOwnQueue (s : SwitchThreads Pkt) : Prop := ∃ packet, s.ingress = .pushing packet

/-! ## What the calls keep -/

/-- The queues are sound, and the two that block have room for a packet. -/
structure Sound (s : SwitchThreads Pkt) : Prop where
  egress : s.egressBuffers.Sound
  nbWorkers : s.egressBuffers.nbWorkers = nbEgressThreads
  input : 0 < s.inputBuffer.capacity
  output : 0 < s.outputBuffer.capacity

variable {s s' : SwitchThreads Pkt}

theorem sound_start {inputCapacity outputCapacity : ℕ} (maxPort egressCapacity : ℕ)
    (hinput : 0 < inputCapacity) (houtput : 0 < outputCapacity) :
    (start inputCapacity maxPort egressCapacity outputCapacity : SwitchThreads Pkt).Sound where
  egress := QueueingLogicRL.sound_create _ _ _ (by decide)
  nbWorkers := rfl
  input := hinput
  output := houtput

/-- A call writes to or reads from each queue at most once, and the ingress thread only comes to
wait in `push_front` when it resubmits a packet while the buffer is full. -/
theorem step_cases {op : ThreadOp Pkt} (hstep : s.step op = some s') :
    s.inputBuffer.Moved s'.inputBuffer ∧ s.outputBuffer.Moved s'.outputBuffer ∧
      s.egressBuffers.Moved s'.egressBuffers ∧
      ∀ packet, s'.ingress = .pushing packet → s.ingress = .pushing packet ∨
        (op = .ingressResubmit packet ∧ (∃ packet', s.ingress = .processing packet') ∧
          s.inputBuffer.pushFront packet = none) := by
  simp only [Queue.Moved, QueueingLogicRL.Moved]
  cases op <;> simp only [step, setEgress] at hstep <;> split at hstep
  all_goals try simp only [Option.map_eq_some_iff, reduceCtorEq] at hstep
  all_goals grind

/-- Every call leaves the queues sound. -/
theorem Sound.step (h : s.Sound) {op : ThreadOp Pkt} (hstep : s.step op = some s') : s'.Sound := by
  obtain ⟨hinput, houtput, hegress, -⟩ := step_cases hstep
  obtain ⟨hsound, hworkers, -⟩ := h.egress.moved hegress
  exact ⟨hsound, hworkers.trans h.nbWorkers, hinput.capacity ▸ h.input, houtput.capacity ▸ h.output⟩

/-! ## No thread waits for itself -/

/-- The ingress thread works on a packet. -/
def processing (s : SwitchThreads Pkt) : Bool :=
  match s.ingress with
  | .processing _ => true
  | _ => false

/-- A packet is resubmitted while `input_buffer` has room for it. -/
def ResubmitsWithRoom (s : SwitchThreads Pkt) : ThreadOp Pkt → Prop
  | .ingressResubmit _ => s.processing → s.inputBuffer.isNotFull
  | _ => True

instance (s : SwitchThreads Pkt) (op : ThreadOp Pkt) : Decidable (ResubmitsWithRoom s op) := by
  cases op <;> unfold ResubmitsWithRoom <;> infer_instance

/-- The ingress thread comes to wait in `push_front` exactly when it resubmits a packet while the
buffer is full. -/
theorem blocksOnOwnQueue_step {op : ThreadOp Pkt} (hblocks : ¬ s.BlocksOnOwnQueue) :
    s.ResubmitsWithRoom op ↔ ∀ s', s.step op = some s' → ¬ s'.BlocksOnOwnQueue := by
  constructor
  · rintro hroom s' hstep ⟨packet, hpacket⟩
    rcases (step_cases hstep).2.2.2 packet hpacket with hwas | ⟨rfl, ⟨packet', hprocessing⟩, hfull⟩
    · exact hblocks ⟨packet, hwas⟩
    · have hnot := of_decide_eq_true (hroom (by rw [processing, hprocessing]))
      exact absurd (Queue.pushFront_eq_none.mp hfull) (not_le.mpr hnot)
  · intro h
    cases op with
    | ingressResubmit packetCopy =>
      intro hprocessing
      by_contra hfull
      have hnone : s.inputBuffer.pushFront packetCopy = none :=
        Queue.pushFront_eq_none.mpr (not_lt.mp fun hlt => hfull (decide_eq_true hlt))
      rw [processing] at hprocessing
      split at hprocessing
      · refine h { s with ingress := .pushing packetCopy } ?_ ⟨packetCopy, rfl⟩
        simp only [step, *]
      · cases hprocessing
    | _ => trivial

/-- The transmit thread goes on while `output_buffer` holds a packet. -/
theorem exists_transmit (h : s.outputBuffer.queue ≠ []) :
    ∃ op, op.thread = .transmit ∧ (s.step op).isSome := by
  cases htransmit : s.transmit with
  | popping =>
    refine ⟨.transmitPop, rfl, ?_⟩
    simpa [step, htransmit, Option.isSome_iff_ne_none, Queue.popBack_eq_none] using h
  | transmitting packet => exact ⟨.transmitDone, rfl, by simp [step, htransmit]⟩

/-- The ingress thread goes on while `input_buffer` holds a packet and it does not wait to write
another one to it. -/
theorem exists_ingress (hblocks : ¬ s.BlocksOnOwnQueue) (h : s.inputBuffer.queue ≠ []) :
    ∃ op, op.thread = .ingress ∧ (s.step op).isSome := by
  cases hingress : s.ingress with
  | popping =>
    refine ⟨.ingressPop, rfl, ?_⟩
    simpa [step, hingress, Option.isSome_iff_ne_none, Queue.popBack_eq_none] using h
  | processing packet => exact ⟨.ingressDone, rfl, by simp [step, hingress]⟩
  | pushing packet => exact absurd ⟨packet, hingress⟩ hblocks

/-- A bounded queue that a thread cannot write to holds a packet. -/
theorem ne_nil_of_pushFront {q : Queue Pkt} {packet : Pkt} (hpos : 0 < q.capacity)
    (hnone : q.pushFront packet = none) : q.queue ≠ [] := by
  have hle := Queue.pushFront_eq_none.mp hnone
  exact List.ne_nil_of_length_pos (hpos.trans_le hle)

/-- One of the threads that process packets goes on while a packet is queued. -/
theorem Sound.exists_step (h : s.Sound) (hblocks : ¬ s.BlocksOnOwnQueue) (hqueued : s.Queued) :
    ∃ op, op.thread ≠ .receive ∧ (s.step op).isSome := by
  by_cases hinput : s.inputBuffer.queue = []
  case neg =>
    obtain ⟨op, hthread, hsome⟩ := exists_ingress hblocks hinput
    exact ⟨op, hthread ▸ by decide, hsome⟩
  by_cases houtput : s.outputBuffer.queue = []
  case neg =>
    obtain ⟨op, hthread, hsome⟩ := exists_transmit houtput
    exact ⟨op, hthread ▸ by decide, hsome⟩
  -- the packet is in the queue of an egress thread, and the other queues are empty
  obtain ⟨workerId, hitems⟩ := (hqueued.resolve_left (absurd hinput)).resolve_left (absurd houtput)
  cases hegress : s.egress workerId with
  | popping =>
    obtain ⟨i, now, r, hpop⟩ := h.egress.exists_popBack hitems
    exact ⟨.egressPop workerId i now, by simp [ThreadOp.thread], by simp [SwitchThreads.step, hegress, hpop]⟩
  | processing port packet =>
    exact ⟨.egressDrop workerId, by simp [ThreadOp.thread], by simp [SwitchThreads.step, hegress]⟩
  | pushingInput packet =>
    have hroom : s.inputBuffer.pushFront packet ≠ none :=
      fun hnone => ne_nil_of_pushFront h.input hnone hinput
    exact ⟨.egressResume workerId, by simp [ThreadOp.thread],
      by simpa [SwitchThreads.step, hegress, Option.isSome_iff_ne_none] using hroom⟩
  | pushingOutput packet =>
    have hroom : s.outputBuffer.pushFront packet ≠ none :=
      fun hnone => ne_nil_of_pushFront h.output hnone houtput
    exact ⟨.egressResume workerId, by simp [ThreadOp.thread],
      by simpa [SwitchThreads.step, hegress, Option.isSome_iff_ne_none] using hroom⟩

theorem Sound.not_deadlocked (h : s.Sound) (hblocks : ¬ s.BlocksOnOwnQueue) : ¬ s.Deadlocked := by
  rintro ⟨hqueued, hblocked⟩
  obtain ⟨op, hthread, hsome⟩ := h.exists_step hblocks hqueued
  have hnone := hblocked op.thread hthread [] s rfl op rfl
  rw [hnone] at hsome
  cases hsome

/-- **The threads run on exactly when packets are resubmitted with room.**  However the calls of the
threads are interleaved and whatever the iterations do with their packets, a run reaches no
deadlock, and the ingress thread never waits for itself, if and only if every packet that it
resubmits finds room in `input_buffer`. -/
theorem runs_of_resubmitsWithRoom {inputCapacity outputCapacity : ℕ}
    (hinput : 0 < inputCapacity) (houtput : 0 < outputCapacity) (maxPort egressCapacity : ℕ)
    (ops : List (ThreadOp Pkt)) :
    RunMeets step ResubmitsWithRoom
        (start inputCapacity maxPort egressCapacity outputCapacity) ops ↔
      RunMeets step (fun s op => ∀ s', s.step op = some s' → ¬ s'.Deadlocked ∧ ¬ s'.BlocksOnOwnQueue)
        (start inputCapacity maxPort egressCapacity outputCapacity) ops := by
  apply RunMeets.iff_of_invariant (I := fun s => s.Sound ∧ ¬ s.BlocksOnOwnQueue)
  · rintro s op ⟨hsound, hblocks⟩
    rw [blocksOnOwnQueue_step hblocks]
    constructor
    · intro h s' hstep
      exact ⟨(hsound.step hstep).not_deadlocked (h s' hstep), h s' hstep⟩
    · intro h s' hstep
      exact (h s' hstep).2
  · rintro s op s' ⟨hsound, hblocks⟩ hroom hstep
    exact ⟨hsound.step hstep, (blocksOnOwnQueue_step hblocks).mp hroom s' hstep⟩
  · refine ⟨sound_start maxPort egressCapacity hinput houtput, ?_⟩
    rintro ⟨packet, hpacket⟩
    cases hpacket

theorem runs_of_resubmitsWithRoom_forward :
    RunMeets step (fun s op => ∀ s', s.step op = some s' → ¬ s'.Deadlocked ∧ ¬ s'.BlocksOnOwnQueue)
      (start 1 2 1 1)
      [.receive 7, .ingressPop, .receive 8, .ingressEnqueue 1 7 0, .ingressDone, .ingressPop,
        .ingressResubmit 9, .egressPop 1 0 0, .egressOutput 1] :=
  (runs_of_resubmitsWithRoom (by decide) (by decide) 2 1 _).mp (by decide)

/-! ## A deadlock -/

/-- The ingress thread waits for room in a full `input_buffer`, and nothing is left for the other
threads. -/
structure Stuck (s : SwitchThreads Pkt) : Prop where
  blocks : s.BlocksOnOwnQueue
  full : s.inputBuffer.capacity ≤ s.inputBuffer.queue.length
  output : s.outputBuffer.queue = []
  egress : ∀ workerId, s.egress workerId = .popping ∧ s.egressBuffers.items workerId = []
  transmit : s.transmit = .popping

/-- A worker without an item waits. -/
theorem popBack_of_items {q : QueueingLogicRL Pkt} {workerId : ℕ} (h : q.items workerId = [])
    (i now : ℕ) : q.popBack workerId i now = none := by
  cases hget : q.workersInfo[workerId]? with
  | none => simp [QueueingLogicRL.popBack, hget]
  | some queue =>
    rw [QueueingLogicRL.items, hget, Option.getD_some] at h
    simp [QueueingLogicRL.popBack, hget, h]

theorem Stuck.step_eq_none (h : s.Stuck) {op : ThreadOp Pkt} (hop : op.thread ≠ .receive) :
    s.step op = none := by
  obtain ⟨packet, hpacket⟩ := h.blocks
  have hfull (packet : Pkt) : s.inputBuffer.pushFront packet = none :=
    Queue.pushFront_eq_none.mpr h.full
  cases op with
  | receive packet => exact absurd rfl hop
  | receiveResume => exact absurd rfl hop
  | ingressResume => simp [SwitchThreads.step, hpacket, hfull]
  | egressPop workerId i now =>
    simp [SwitchThreads.step, (h.egress workerId).1, popBack_of_items (h.egress workerId).2]
  | egressEnqueue workerId | egressDrop workerId | egressRecirculate workerId
  | egressOutput workerId | egressResume workerId =>
    simp [SwitchThreads.step, (h.egress workerId).1]
  | transmitPop => simp [SwitchThreads.step, h.transmit, Queue.popBack_eq_none.mpr h.output]
  | transmitDone => simp [SwitchThreads.step, h.transmit]
  | _ => simp [SwitchThreads.step, hpacket]

theorem Stuck.step (h : s.Stuck) {op : ThreadOp Pkt} (hstep : s.step op = some s') : s'.Stuck := by
  have hfull (packet : Pkt) : s.inputBuffer.pushFront packet = none :=
    Queue.pushFront_eq_none.mpr h.full
  by_cases hop : op.thread = .receive
  · cases op <;> try cases hop
    all_goals
      simp only [SwitchThreads.step, hfull] at hstep
      split at hstep <;> cases hstep
    exact ⟨h.blocks, h.full, h.output, h.egress, h.transmit⟩
  · rw [h.step_eq_none hop] at hstep
    cases hstep

theorem Stuck.deadlocked (h : s.Stuck) (hpos : 0 < s.inputBuffer.capacity) : s.Deadlocked := by
  refine ⟨.inl (List.ne_nil_of_length_pos (hpos.trans_le h.full)), ?_⟩
  intro thread hthread ops t hrun op hop
  have hstuck := runFrom_invariant (fun _ _ _ hs hstep => Stuck.step hs hstep) h hrun
  exact hstuck.step_eq_none (hop ▸ hthread)

/-- A packet comes in while the ingress thread works on another one, which it then resubmits: with
room for one packet in `input_buffer`, all threads that process packets wait for ever. -/
theorem resubmit_deadlocks : ∃ s : SwitchThreads ℕ,
    runFrom step (start 1 2 1 1) [.receive 7, .ingressPop, .receive 8, .ingressResubmit 7] = some s ∧
      s.Deadlocked ∧ s.BlocksOnOwnQueue := by
  refine ⟨_, rfl, Stuck.deadlocked ⟨⟨7, rfl⟩, by decide, rfl, ?_, rfl⟩ (by decide), ⟨7, rfl⟩⟩
  decide

end SwitchThreads

end Bm
