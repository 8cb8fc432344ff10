/-
# The ingress and the egress loop

One iteration of `ingress_thread` and of `egress_thread` (`simple_switch.cpp`).  The parser, the
pipelines and the deparser are given; what the loops do with the fields of the metadata, the
mirroring map, the field lists, the multicast engine and the queues is modelled here.

`none` stands for an exception, which ends the thread, and for the ingress thread that waits for
itself.
-/
import Bmv2.PacketLength
import Bmv2.Queues
import Bmv2.SimplePre

namespace Bm

/-- `Data::get_int`. -/
def getInt (value : ℤ) : ℤ := Int.bmod value (2 ^ 32)

/-- `Data::get_uint`. -/
def getUint (value : ℤ) : ℕ := (value % 2 ^ 32).toNat

namespace DataPHV

/-- The value of a field. -/
def valueAt (phv : DataPHV) (f : ℕ × ℕ) : Option ℤ :=
  (phv.getField f).toOption.map DataField.value

/-- A field is set. -/
def setAt (phv : DataPHV) (f : ℕ × ℕ) (value : ℤ) : Option DataPHV :=
  (phv.setValue f value).toOption

end DataPHV

/-- The fields of `queueing_metadata`. -/
structure QueueingFields where
  enqTimestamp : ℕ × ℕ
  enqQdepth : ℕ × ℕ
  deqTimedelta : ℕ × ℕ
  deqQdepth : ℕ × ℕ

/-- What the threads have from the configuration: the fields that they use, where those that are
not required may be missing; the field lists; and the parser, the pipelines and the deparser. -/
structure TargetConfig where
  egressSpec : ℕ × ℕ
  cloneSpec : ℕ × ℕ
  instanceType : ℕ × ℕ
  egressPort : ℕ × ℕ
  packetLength : ℕ × ℕ
  lfFieldList : Option (ℕ × ℕ)
  mcastGrp : Option (ℕ × ℕ)
  resubmitFlag : Option (ℕ × ℕ)
  egressRid : Option (ℕ × ℕ)
  bridgePort : Option (ℕ × ℕ)
  recirculateFlag : Option (ℕ × ℕ)
  queueing : Option QueueingFields
  fieldList : ℤ → Option (List (ℕ × ℕ))
  parse : PacketInstance → PacketInstance
  ingressMau : PacketInstance → PacketInstance
  egressMau : PacketInstance → PacketInstance
  deparse : PacketInstance → PacketInstance

/-- What a new packet happens to get: a PHV of the pool, a register that is not initialised, and
the time. -/
structure CopySource where
  phv : PooledPHV
  register0 : UInt64
  now : ℕ

/-- `SimpleSwitch`; a packet is queued with its egress port. -/
structure SimpleSwitch where
  config : TargetConfig
  inputBuffer : Queue PacketInstance
  egressBuffers : QueueingLogicRL (PacketInstance × ℤ)
  pre : McSimplePreLAG
  mirroringMap : ℤ → Option ℤ

namespace TargetConfig

variable (c : TargetConfig)

/-- The value of a field that may be missing. -/
def optionalValue (f : Option (ℕ × ℕ)) (phv : DataPHV) : Option ℤ :=
  match f with
  | none => some 0
  | some f => phv.valueAt f

/-- A flag that has been set, with its value. -/
def flagged (f : Option (ℕ × ℕ)) (phv : DataPHV) : Option (Option ((ℕ × ℕ) × ℤ)) :=
  match f with
  | none => some none
  | some f => (phv.valueAt f).map fun value =>
    if getInt value ≠ 0 then some (f, getInt value) else none

/-- What a copy carries: after `reset_metadata`, the fields of a field list and its type. -/
def carryFields (copy phv : DataPHV) (fieldListId copyType : ℤ) : Option DataPHV := do
  let fieldList ← c.fieldList fieldListId
  let copy ← (copy.resetMetadata.copyFieldList phv fieldList).toOption
  copy.setAt c.instanceType copyType

/-- `copy_ingress_pkt`, of a packet whose buffer has been restored. -/
def copyIngressPkt (packetInState : PacketBuffer) (phv : DataPHV) (copyType fieldListId : ℤ)
    (src : CopySource) : Option PacketInstance := do
  let copy := SwitchProgram.cloneNoPHV packetInState src.phv src.register0
  let phvCopy ← c.carryFields copy.packet.phv phv fieldListId copyType
  return copy.setPHV phvCopy

end TargetConfig

namespace SimpleSwitch

variable (s : SimpleSwitch)

/-- `get_mirroring_mapping`. -/
def getMirroringMapping (mirrorId : ℤ) : ℤ := (s.mirroringMap mirrorId).getD (-1)

/-- The number of a port as an index; a negative one wraps around, beyond the end of the queues. -/
def portIndex (egressPort : ℤ) : Option ℕ := if 0 ≤ egressPort then some egressPort.toNat else none

/-- The queueing metadata of a packet that is queued. -/
def setEnqueued (queueId : ℕ) (phv : DataPHV) (now : ℕ) : Option DataPHV :=
  match s.config.queueing with
  | none => some phv
  | some f => do
    let phv ← phv.setAt f.enqTimestamp now
    let depth ← s.egressBuffers.size queueId
    phv.setAt f.enqQdepth depth

/-- `enqueue`. -/
def enqueue (egressPort : ℤ) (packet : PacketInstance) (now : ℕ) : Option SimpleSwitch := do
  let queueId ← portIndex egressPort
  let phv ← s.setEnqueued queueId packet.packet.phv now
  let (_, egressBuffers) ← s.egressBuffers.pushFront queueId (packet.setPHV phv, egressPort) now
  return { s with egressBuffers }

/-! ## Ingress -/

/-- Ingress cloning. -/
def ingressClone (packetInState : PacketBuffer) (phv : DataPHV) (cloneSpec : ℕ) (src : CopySource) :
    Option (SimpleSwitch × DataPHV) :=
  if cloneSpec = 0 then some (s, phv)
  else do
    let egressPort := s.getMirroringMapping (cloneSpec &&& 0xFFFF : ℕ)
    let phv ← phv.setAt s.config.cloneSpec 0
    if egressPort < 0 then some (s, phv)
    else do
      let packetCopy ← s.config.copyIngressPkt packetInState phv 1 (cloneSpec >>> 16 : ℕ) src
      let s ← s.enqueue egressPort (s.config.parse packetCopy) src.now
      return (s, phv)

/-- Resubmission, when the flag is set; `none` also when `input_buffer` is full, as no other thread
reads it. -/
def resubmit (packetInState : PacketBuffer) (phv : DataPHV) (flag : ℕ × ℕ) (fieldListId : ℤ)
    (src : CopySource) : Option SimpleSwitch := do
  let phv ← phv.setAt flag 0
  let packetCopy ← s.config.copyIngressPkt packetInState phv 6 fieldListId src
  let inputBuffer ← s.inputBuffer.pushFront packetCopy
  return { s with inputBuffer }

/-- One turn of the loop over the copies of the multicast engine. -/
def replicateTo (rid : ℕ × ℕ) (packet : PacketInstance) (s : SimpleSwitch × DataPHV)
    (out : McOut × CopySource) : Option (SimpleSwitch × DataPHV) := do
  let bridgePort ← s.1.config.bridgePort
  let phv ← s.2.setAt bridgePort out.1.egressPort
  let phv ← phv.setAt rid out.1.rid
  let phv ← phv.setAt s.1.config.instanceType 5
  let packetCopy := SwitchProgram.cloneWithPHV (packet.setPHV phv) out.2.phv packet.register0
  let s ← s.1.enqueue out.1.egressPort packetCopy out.2.now
  return (s, phv)

/-- Multicast. -/
def multicast (packet : PacketInstance) (phv : DataPHV) (mgid : ℕ) (src : ℕ → CopySource) :
    Option SimpleSwitch := do
  let rid ← s.config.egressRid
  let outs ← s.pre.replicate mgid
  let (s, _) ← (outs.zipIdx.map fun out => (out.1, src out.2)).foldlM (replicateTo rid packet) (s, phv)
  return s

/-- What the ingress loop does after cloning and learning. -/
def forward (packetInState : PacketBuffer) (packet : PacketInstance) (phv : DataPHV)
    (egressSpec : ℤ) (mgid : ℕ) (src : ℕ → CopySource) : Option SimpleSwitch := do
  match ← TargetConfig.flagged s.config.resubmitFlag phv with
  | some (flag, fieldListId) => s.resubmit packetInState phv flag fieldListId (src 0)
  | none =>
    if mgid ≠ 0 then s.multicast packet phv mgid fun i => src (i + 1)
    else if egressSpec = 511 then some s
    else s.enqueue egressSpec (packet.setPHV phv) (src 0).now

/-- The ingress loop after the pipeline, with the id of the learn list if there is one; to learn is
always possible. -/
def ingressTail (packetInState : PacketBuffer) (packet : PacketInstance) (src : ℕ → CopySource) :
    Option (SimpleSwitch × Option ℤ) := do
  let phv := packet.packet.phv
  let egressSpec ← phv.valueAt s.config.egressSpec
  let cloneSpec ← phv.valueAt s.config.cloneSpec
  let learnId ← TargetConfig.optionalValue s.config.lfFieldList phv
  let mgid ← TargetConfig.optionalValue s.config.mcastGrp phv
  let (s, phv) ← s.ingressClone packetInState phv (getUint cloneSpec) (src 0)
  let learn := if getInt learnId > 0 then some (getInt learnId) else none
  let s ← s.forward packetInState packet phv (getInt egressSpec) (getUint mgid) fun i => src (i + 1)
  return (s, learn)

/-- One iteration of the ingress loop, for a packet of `input_buffer`. -/
def ingressIteration (packet : PacketInstance) (src : ℕ → CopySource) :
    Option (SimpleSwitch × Option ℤ) :=
  s.ingressTail packet.packet.buffer (s.config.ingressMau (s.config.parse packet)) src

/-! ## Egress -/

/-- What becomes of a packet at the end of egress. -/
inductive EgressEnd where
  | dropped
  | recirculated (packetCopy : PacketInstance)
  | output (packet : PacketInstance) (egressPort : ℤ)

/-- The queueing metadata of a packet that has been taken from its queue. -/
def setDequeued (port : ℕ) (phv : DataPHV) (now : ℕ) : Option DataPHV :=
  match s.config.queueing with
  | none => some phv
  | some f => do
    let enqTimestamp ← phv.valueAt f.enqTimestamp
    let phv ← phv.setAt f.deqTimedelta (now - enqTimestamp)
    let depth ← s.egressBuffers.size port
    phv.setAt f.deqQdepth depth

/-- The egress loop before the pipeline. -/
def egressHead (port : ℕ) (packet : PacketInstance) (now : ℕ) : Option PacketInstance := do
  let phv ← s.setDequeued port packet.packet.phv now
  let phv ← phv.setAt s.config.egressPort port
  let phv ← phv.setAt s.config.egressSpec 510
  let phv ← phv.setAt s.config.packetLength packet.register0.toNat
  return packet.setPHV phv

/-- Egress cloning. -/
def egressClone (packet : PacketInstance) (cloneSpec : ℕ) (src : CopySource) :
    Option (SimpleSwitch × PacketInstance) :=
  if cloneSpec = 0 then some (s, packet)
  else
    let egressPort := s.getMirroringMapping (cloneSpec &&& 0xFFFF : ℕ)
    if egressPort < 0 then some (s, packet)
    else do
      let phv ← packet.packet.phv.setAt s.config.cloneSpec 0
      let copy := SwitchProgram.cloneWithPHV (packet.setPHV phv) src.phv src.register0
      let phvCopy ← s.config.carryFields copy.packet.phv phv (cloneSpec >>> 16 : ℕ) 2
      let s ← s.enqueue egressPort (copy.setPHV phvCopy) src.now
      return (s, packet.setPHV phv)

/-- Recirculation, when the flag is set, of a packet that has been deparsed. -/
def recirculate (packet : PacketInstance) (flag : ℕ × ℕ) (fieldListId : ℤ) (src : CopySource) :
    Option PacketInstance := do
  let phv ← packet.packet.phv.setAt flag 0
  let copy := SwitchProgram.cloneNoPHV packet.packet.buffer src.phv src.register0
  let phvCopy ← s.config.carryFields copy.packet.phv phv fieldListId 4
  let size := copy.packet.buffer.data.length
  let phvCopy ← phvCopy.setAt s.config.packetLength size
  return { copy.setPHV phvCopy with register0 := UInt64.ofNat size }

/-- The end of the egress loop, for a packet that is not dropped. -/
def output (packet : PacketInstance) (egressPort : ℤ) (src : CopySource) : Option EgressEnd := do
  let packet := s.config.deparse packet
  match ← TargetConfig.flagged s.config.recirculateFlag packet.packet.phv with
  | some (flag, fieldListId) => (s.recirculate packet flag fieldListId src).map .recirculated
  | none => some (.output packet egressPort)

/-- The egress loop after the pipeline. -/
def egressTail (packet : PacketInstance) (port : ℤ) (src : ℕ → CopySource) :
    Option (SimpleSwitch × EgressEnd) := do
  let cloneSpec ← packet.packet.phv.valueAt s.config.cloneSpec
  let (s, packet) ← s.egressClone packet (getUint cloneSpec) (src 0)
  let egressSpec ← packet.packet.phv.valueAt s.config.egressSpec
  if getInt egressSpec = 511 then some (s, .dropped)
  else do
    let egressPort := if getInt egressSpec ≠ 510 then getInt egressSpec else port
    let out ← s.output packet egressPort (src 1)
    return (s, out)

/-- One iteration of the egress loop, for a packet of `egress_buffers`. -/
def egressIteration (port : ℕ) (packet : PacketInstance × ℤ) (src : ℕ → CopySource) :
    Option (SimpleSwitch × EgressEnd) := do
  let head ← s.egressHead port packet.1 (src 0).now
  s.egressTail (s.config.egressMau head) packet.2 src

end SimpleSwitch

end Bm
