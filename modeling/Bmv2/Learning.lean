/-
# Learn lists

A `LearnList` (`learning.cpp`) collects samples in a buffer, hands a full buffer to its transmit
thread, and remembers in a filter the samples that have not been acknowledged.  For each buffer it
keeps the iterators of its samples in the filter, and counts those that are left.

The threads that share a list are those that learn, which wait when the buffer that was handed over
before has not been sent, the transmit thread, and the clients that acknowledge.  A step is what one
of them does between two points at which it may be interrupted.  A step that is not possible, as
the thread is elsewhere or goes on waiting, changes nothing.

An iterator is the number of its node.  It is valid as long as the node is in the filter; the use of
an erased one, and an access outside of a vector, is modelled by `none`.
-/
import Bmv2.Lib.Runs
import Bmv2.Phv

namespace Bm

/-- The bytes that `LearnSampleBuilder` makes of a packet. -/
abbrev Sample := List Byte

/-- `LearnMode`. -/
inductive LearnMode where
  | none
  | writer
  | cb
  deriving DecidableEq

/-- `FilterPtrs`. -/
structure FilterPtrs where
  unackedCount : ℕ := 0
  buffer : List ℕ := []
  deriving DecidableEq

/-- `msg_hdr_t`, after the topic. -/
structure LearnMsgHdr where
  switchId : ℕ
  cxtId : ℕ
  listId : ℕ
  bufferId : ℕ
  numSamples : ℕ
  deriving DecidableEq

/-- What the writer or the callback of a list gets. -/
structure LearnNotification where
  msgHdr : LearnMsgHdr
  samples : List Byte
  deriving DecidableEq

/-- Where the transmit thread is in `buffer_transmit`: waiting for a buffer, before the message,
without the lock, or after it. -/
inductive TransmitPoint where
  | waiting
  | sending (numSamplesToSend : ℕ)
  | sent
  deriving DecidableEq

/-- `LearnList`. `filterNodes` counts the nodes that the filter has had, and `blocked` the threads
that wait in `process_full_buffer`. -/
structure LearnList where
  listId : ℕ
  deviceId : ℕ
  cxtId : ℕ
  maxSamples : ℕ
  withTimeout : Bool
  learnMode : LearnMode
  buffer : List Byte := []
  bufferId : ℕ := 0
  numSamples : ℕ := 0
  filter : List (ℕ × Sample) := []
  filterNodes : ℕ := 0
  oldBuffers : ℕ → Option FilterPtrs := fun _ => .none
  bufferTmp : List Byte := []
  numSamplesTmp : ℕ := 0
  transmit : TransmitPoint := .waiting
  blocked : ℕ := 0

/-- The steps of the threads. -/
inductive LearnOp where
  | addSample (sample : Sample)
  | setMaxSamples (nbSamples : ℕ)
  | setTimeout (timeoutMs : ℕ)
  /-- A thread in `process_full_buffer` is woken. -/
  | wake
  /-- The transmit thread looks for a buffer, and the timeout is over or not. -/
  | transmitCheck (timedOut : Bool)
  | transmitSend
  | transmitDone
  | ack (bufferId : ℕ) (sampleIds : List ℤ)
  | ackBuffer (bufferId : ℕ)

/-- `v[i]` with an `int`. -/
def getInt? {α : Type} (v : List α) : ℤ → Option α
  | .ofNat i => v[i]?
  | .negSucc _ => .none

/-- `filter.erase`. -/
def eraseNode (filter : List (ℕ × Sample)) (node : ℕ) : Option (List (ℕ × Sample)) :=
  if filter.any (·.1 = node) then some (filter.filter (·.1 ≠ node)) else .none

namespace LearnList

variable (s : LearnList)

/-- The constructor, with the writer or the callback that is set before `init`. -/
def create (listId deviceId cxtId maxSamples timeout : ℕ) (learnMode : LearnMode) : LearnList where
  listId := listId
  deviceId := deviceId
  cxtId := cxtId
  maxSamples := maxSamples
  withTimeout := timeout > 0
  learnMode := learnMode

/-- `swap_buffers`. -/
def swapBuffers : LearnList :=
  { s with
    bufferTmp := s.buffer
    buffer := s.bufferTmp
    numSamplesTmp := s.numSamples
    numSamples := 0
    bufferId := s.bufferId + 1 }

/-- `process_full_buffer`, up to the point at which it waits. -/
def processFullBuffer : LearnList :=
  if s.bufferTmp.length ≠ 0 then { s with blocked := s.blocked + 1 } else s.swapBuffers

/-- The part of `add_sample` that records the sample. -/
def recordSample (sample : Sample) : LearnList :=
  let filterPtrs := (s.oldBuffers s.bufferId).getD {}
  { s with
    buffer := s.buffer ++ sample
    numSamples := s.numSamples + 1
    filter := s.filter ++ [(s.filterNodes, sample)]
    filterNodes := s.filterNodes + 1
    oldBuffers := Function.update s.oldBuffers s.bufferId (some {
      unackedCount := filterPtrs.unackedCount + 1
      buffer := filterPtrs.buffer ++ [s.filterNodes] }) }

/-- `add_sample`. -/
def addSample (sample : Sample) : LearnList :=
  if s.filter.any (·.2 = sample) then s
  else
    let s := s.recordSample sample
    if s.numSamples = 1 ∧ s.maxSamples > 1 then s
    else if s.numSamples ≥ s.maxSamples then s.processFullBuffer
    else s

/-- `set_max_samples`. -/
def setMaxSamples (nbSamples : ℕ) : LearnList :=
  let s := { s with maxSamples := nbSamples }
  if s.numSamples > 0 ∧ s.numSamples ≥ s.maxSamples then s.processFullBuffer else s

/-- The rest of `process_full_buffer`, for a thread that has waited. -/
def wake : LearnList :=
  if s.blocked ≠ 0 ∧ s.bufferTmp.length = 0 then { s with blocked := s.blocked - 1 }.swapBuffers
  else s

/-- `buffer_transmit`, up to the point at which it drops the lock. -/
def transmitCheck (timedOut : Bool) : LearnList :=
  match s.transmit with
  | .waiting =>
    if s.bufferTmp.length = 0 then
      if s.withTimeout ∧ s.numSamples ≠ 0 ∧ timedOut then
        { s.swapBuffers with transmit := .sending s.numSamples }
      else s
    else { s with transmit := .sending s.numSamplesTmp }
  | _ => s

/-- `msg_hdr`. -/
def msgHdr (numSamplesToSend : ℕ) : LearnMsgHdr where
  switchId := s.deviceId
  cxtId := s.cxtId
  listId := s.listId
  bufferId := s.bufferId - 1
  numSamples := numSamplesToSend % 2 ^ 32

/-- The message of `buffer_transmit`. The length of a message to the writer is an
`unsigned int`. -/
def transmitSend : LearnList × Option LearnNotification :=
  match s.transmit with
  | .sending numSamplesToSend =>
    ({ s with transmit := .sent }, match s.learnMode with
      | .writer => some ⟨s.msgHdr numSamplesToSend, s.bufferTmp.take (s.bufferTmp.length % 2 ^ 32)⟩
      | .cb => some ⟨s.msgHdr numSamplesToSend, s.bufferTmp⟩
      | .none => .none)
  | _ => (s, .none)

/-- The rest of `buffer_transmit`. -/
def transmitDone : LearnList :=
  match s.transmit with
  | .sent => { s with transmit := .waiting, bufferTmp := [] }
  | _ => s

/-- One turn of the loop of `ack`. The entry of the buffer is gone when an earlier turn has erased
it. -/
def ackSample (bufferId : ℕ) (s : LearnList) (sampleId : ℤ) : Option LearnList := do
  let filterPtrs ← s.oldBuffers bufferId
  let node ← getInt? filterPtrs.buffer sampleId
  let filter ← eraseNode s.filter node
  return { s with
    filter
    oldBuffers := Function.update s.oldBuffers bufferId
      (if filterPtrs.unackedCount = 1 then .none
      else some { filterPtrs with unackedCount := filterPtrs.unackedCount - 1 }) }

/-- `ack`. -/
def ack (bufferId : ℕ) (sampleIds : List ℤ) : Option LearnList :=
  if (s.oldBuffers bufferId).isNone then some s else sampleIds.foldlM (ackSample bufferId) s

/-- The filter after `ack_buffer`. It is cleared when it has as many samples as are left in the
buffer. -/
def filterWithout (filterPtrs : FilterPtrs) : Option (List (ℕ × Sample)) :=
  if filterPtrs.unackedCount = s.filter.length then some []
  else filterPtrs.buffer.foldlM eraseNode s.filter

/-- `ack_buffer`. -/
def ackBuffer (bufferId : ℕ) : Option LearnList :=
  match s.oldBuffers bufferId with
  | .none => some s
  | some filterPtrs => (s.filterWithout filterPtrs).map fun filter =>
    { s with filter, oldBuffers := Function.update s.oldBuffers bufferId .none }

/-- One step, with the notification that it sends; `none` when it uses an erased entry. -/
def exec : LearnOp → Option (LearnList × Option LearnNotification)
  | .addSample sample => some (s.addSample sample, .none)
  | .setMaxSamples nbSamples => some (s.setMaxSamples nbSamples, .none)
  | .setTimeout timeoutMs => some ({ s with withTimeout := timeoutMs > 0 }, .none)
  | .wake => some (s.wake, .none)
  | .transmitCheck timedOut => some (s.transmitCheck timedOut, .none)
  | .transmitSend => some s.transmitSend
  | .transmitDone => some (s.transmitDone, .none)
  | .ack bufferId sampleIds => (s.ack bufferId sampleIds).map (·, .none)
  | .ackBuffer bufferId => (s.ackBuffer bufferId).map (·, .none)

end LearnList

end Bm
