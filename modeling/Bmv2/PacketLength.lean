/-
# Header primitives and packet instances

The primitives of `simple_switch` that add, remove and move headers (`primitives.cpp`), and the
places where `ingress_thread` and `egress_thread` (`simple_switch.cpp`) make another instance of
a packet.  Register 0 holds the length of the packet.

A new packet has a PHV from the pool, in which no header is valid, and registers that have not
been initialised.
-/
import Bmv2.Lib.Runs
import Bmv2.Deparser

namespace Bm

/-! ## Headers -/

/-- `Field::copy_value`; `swap_values` does it both ways. -/
def DataField.copyValue (f src : DataField) : DataField :=
  { f with value := src.value, bytes := src.bytes }

namespace DataHeader

/-- `Header::mark_invalid`. -/
def markInvalid (h : DataHeader) : DataHeader :=
  { h with valid := false, fields := h.fields.modify (h.fields.length - 1) (·.set 0) }

/-- `Header::reset`. -/
def reset (h : DataHeader) : DataHeader := { h with fields := h.fields.map (·.set 0) }

/-- `Header::copy_fields`. -/
def copyFields (h src : DataHeader) : DataHeader :=
  { h with fields := List.zipWith DataField.copyValue h.fields src.fields }

/-- `Header::swap_values`, as seen by one of the two headers. -/
def takeValues (h other : DataHeader) : DataHeader := { h.copyFields other with valid := other.valid }

/-- The bytes that the header takes in the packet. -/
def bytesInPacket (h : DataHeader) : ℕ := if h.valid && !h.metadata then h.nbytesPacket else 0

end DataHeader

namespace DataPHV

/-- A header is changed. -/
def modifyHeader (phv : DataPHV) (header : ℕ) (f : DataHeader → DataHeader) :
    Except ParseFault DataPHV := do
  let h ← phv.getHeader header
  pure (phv.setHeader header (f h))

/-- `swap_values` of two headers. -/
def swapValues (phv : DataPHV) (i j : ℕ) : Except ParseFault DataPHV := do
  let h ← phv.getHeader i
  let g ← phv.getHeader j
  pure ((phv.setHeader i (h.takeValues g)).setHeader j (g.takeValues h))

/-- `headers[i].get().swap_values(&headers[j].get())` in a stack. -/
def swapPlaces (phv : DataPHV) (st : HeaderStack) (i j : ℕ) : Except ParseFault DataPHV := do
  let h ← orFault .id st.headers[i]?
  let g ← orFault .id st.headers[j]?
  phv.swapValues h g

/-- `HeaderStack::push_front`. -/
def pushFront (phv : DataPHV) (stack num : ℕ) : Except ParseFault DataPHV := do
  let st ← phv.getStack stack
  if num = 0 then pure phv
  -- `next - 1` wraps around
  else if st.headers.length = 0 then .error .id
  else
    let next := min st.headers.length (st.next + num)
    -- `for (size_t i = next - 1; i > num - 1; i--)`
    let phv ← (List.range' num (next - num)).reverse.foldlM
      (fun phv i => phv.swapPlaces st i (i - num)) phv
    let phv ← (st.headers.take num).foldlM (fun phv h => phv.modifyHeader h DataHeader.markValid) phv
    pure (phv.setStack stack { st with next })

/-- `HeaderStack::pop_front`. -/
def popFront (phv : DataPHV) (stack num : ℕ) : Except ParseFault DataPHV := do
  let st ← phv.getStack stack
  if num = 0 then pure phv
  else
    let popped := min st.next num
    let next := st.next - popped
    let phv ← (List.range next).foldlM (fun phv i => phv.swapPlaces st i (i + num)) phv
    let phv ← ((st.headers.drop next).take popped).foldlM
      (fun phv h => phv.modifyHeader h DataHeader.markInvalid) phv
    pure (phv.setStack stack { st with next })

/-- `PHV::reset_metadata`. -/
def resetMetadata (phv : DataPHV) : DataPHV :=
  { phv with headers := phv.headers.map fun h => if h.metadata then h.reset else h }

/-- `PHV::copy_headers`. -/
def copyHeaders (phv src : DataPHV) : DataPHV :=
  { phv with
    headers := List.zipWith (fun h g =>
      let h := { h with valid := g.valid, metadata := g.metadata }
      if h.valid || h.metadata then h.copyFields g else h) phv.headers src.headers }

/-- A field is set to a number. -/
def setValue (phv : DataPHV) (dst : ℕ × ℕ) (value : ℤ) : Except ParseFault DataPHV := do
  let f ← phv.getField dst
  phv.setField dst (f.set value)

/-- The fields of a field list are copied to another packet. -/
def copyFieldList (phv src : DataPHV) (fieldList : List (ℕ × ℕ)) : Except ParseFault DataPHV :=
  fieldList.foldlM (fun phv p => do
    let f ← src.getField p
    phv.setValue p f.value) phv

/-- The bytes of the valid headers. -/
def headerBytes (phv : DataPHV) : ℕ := (phv.headers.map DataHeader.bytesInPacket).sum

end DataPHV

/-- A PHV of the pool: `~Packet` has reset it. -/
structure PooledPHV extends DataPHV where
  reset : ∀ h ∈ headers, h.valid = false

/-! ## Primitives -/

/-- A packet with its register 0. -/
structure PacketInstance where
  packet : Packet
  register0 : UInt64

/-- The header primitives. -/
inductive HeaderPrimitive where
  | addHeader (hdr : ℕ)
  | addHeaderFast (hdr : ℕ)
  | removeHeader (hdr : ℕ)
  | copyHeader (dst src : ℕ)
  | push (stack num : ℕ)
  | pop (stack num : ℕ)

namespace PacketInstance

/-- The headers are changed. -/
def setPHV (p : PacketInstance) (phv : DataPHV) : PacketInstance :=
  { p with packet.phv := phv }

/-- The call of a primitive. -/
def call (typeId : ℕ → ℕ) (p : PacketInstance) : HeaderPrimitive → Except ParseFault PacketInstance
  | .addHeader hdr => do
    let h ← p.packet.phv.getHeader hdr
    if !h.isValid then
      let h := h.reset.markValid
      pure { p.setPHV (p.packet.phv.setHeader hdr h) with
        register0 := p.register0 + UInt64.ofNat h.nbytesPacket }
    else pure p
  | .addHeaderFast hdr => do
    let phv ← p.packet.phv.modifyHeader hdr DataHeader.markValid
    pure (p.setPHV phv)
  | .removeHeader hdr => do
    let h ← p.packet.phv.getHeader hdr
    if h.isValid then
      pure { p.setPHV (p.packet.phv.setHeader hdr h.markInvalid) with
        register0 := p.register0 - UInt64.ofNat h.nbytesPacket }
    else pure p
  | .copyHeader dst src => do
    let h ← p.packet.phv.getHeader dst
    let g ← p.packet.phv.getHeader src
    if !g.isValid then pure (p.setPHV (p.packet.phv.setHeader dst h.markInvalid))
    else if typeId dst ≠ typeId src then .error .id
    else
      let h := h.markValid
      let h := { h with fields := List.zipWith (fun f g => f.set g.value) h.fields g.fields }
      pure (p.setPHV (p.packet.phv.setHeader dst h))
  | .push stack num => do
    let phv ← p.packet.phv.pushFront stack num
    pure (p.setPHV phv)
  | .pop stack num => do
    let phv ← p.packet.phv.popFront stack num
    pure (p.setPHV phv)

end PacketInstance

/-! ## Instances of packets -/

/-- A buffer with data at its end; the bytes in front of it are not initialised. -/
def PacketBuffer.ofData (room : ℕ) (data : List Byte) : PacketBuffer where
  buffer := List.replicate room 0 ++ data
  head := room
  head_le := by rw [List.length_append, List.length_replicate]; exact Nat.le_add_right _ _

/-- `PacketBuffer::clone` of all data. -/
def PacketBuffer.clone (b : PacketBuffer) : PacketBuffer := .ofData b.head b.data

/-- What the threads have from the configuration: the parser and the deparser, the types of the
headers, the field lists, and the fields of the metadata that they set. -/
structure SwitchProgram where
  parser : Parser
  deparser : Deparser
  typeId : ℕ → ℕ
  fieldList : ℕ → Option (List (ℕ × ℕ))
  instanceType : ℕ × ℕ
  packetLength : ℕ × ℕ
  egressRid : ℕ × ℕ
  bridgePort : ℕ × ℕ

/-- Where an instance is: in `input_buffer`, in the ingress pipeline, with the state of its buffer
before the parser, in an egress queue, or in the egress pipeline. -/
inductive PacketStage where
  | inputBuffer
  | ingress (packetInState : PacketBuffer)
  | egressBuffers
  | egress

namespace SwitchProgram

variable (prog : SwitchProgram)

/-- `Packet::clone_no_phv`, with the register as it happens to be. -/
def cloneNoPHV (buffer : PacketBuffer) (phv : PooledPHV) (register0 : UInt64) : PacketInstance :=
  ⟨⟨phv.toDataPHV, buffer.clone, 0⟩, register0⟩

/-- `reset_metadata`, and the fields of a field list: what a copy of a packet keeps. -/
def keepFields (copy : PacketInstance) (src : DataPHV) (fieldListId : ℕ) (copyType : ℤ) :
    Except ParseFault PacketInstance := do
  let fieldList ← orFault .id (prog.fieldList fieldListId)
  let phv ← copy.packet.phv.resetMetadata.copyFieldList src fieldList
  let phv ← phv.setValue prog.instanceType copyType
  pure (copy.setPHV phv)

/-- `parser->parse`, of at most `n` states. -/
def parse (p : PacketInstance) (n : ℕ) : Except ParseFault PacketInstance := do
  let packet ← prog.parser.parse n p.packet
  let packet ← orFault .id packet
  pure { p with packet }

/-- `Packet::clone_with_phv`, with the register as it happens to be. -/
def cloneWithPHV (p : PacketInstance) (phv : PooledPHV) (register0 : UInt64) : PacketInstance :=
  ⟨⟨phv.toDataPHV.copyHeaders p.packet.phv, p.packet.buffer.clone, 0⟩, register0⟩

/-- What is made of the instances: a packet comes in; one of them is parsed, works on its headers,
is cloned, resubmitted, replicated, enqueued, taken by an egress thread, cloned there, recirculated,
or goes. -/
inductive Op where
  | receive (data : List Byte) (phv : PooledPHV)
  | ingress (i n : ℕ)
  | call (i : ℕ) (primitive : HeaderPrimitive)
  | ingressClone (i n : ℕ) (phv : PooledPHV) (register0 : UInt64) (fieldListId : ℕ)
  | resubmit (i : ℕ) (phv : PooledPHV) (register0 : UInt64) (fieldListId : ℕ)
  | replicate (i egressPort rid : ℕ) (phv : PooledPHV)
  | enqueue (i : ℕ)
  | egress (i : ℕ)
  | egressClone (i : ℕ) (phv : PooledPHV) (register0 : UInt64) (fieldListId : ℕ)
  | recirculate (i : ℕ) (phv : PooledPHV) (register0 : UInt64) (fieldListId : ℕ)
  | done (i : ℕ)

/-- The instances that there are. -/
abbrev Instances := List (PacketInstance × PacketStage)

/-- One of the calls; a fault when it ends the process or when there is no such instance. -/
def exec (s : Instances) : Op → Except ParseFault Instances
  | .receive data phv => do
    -- `PacketBuffer(len + 512, buffer, len)`
    let phv ← phv.toDataPHV.resetMetadata.setValue prog.packetLength data.length
    let phv ← phv.setValue prog.instanceType 0
    pure (s ++ [(⟨⟨phv, .ofData 512 data, 0⟩, UInt64.ofNat data.length⟩, .inputBuffer)])
  | .ingress i n => do
    match ← orFault .id s[i]? with
    | (p, .inputBuffer) =>
      let p' ← prog.parse p n
      pure (s.set i (p', .ingress p.packet.buffer))
    | _ => .error .id
  | .call i primitive => do
    match ← orFault .id s[i]? with
    | (p, .ingress packetInState) =>
      let p' ← p.call prog.typeId primitive
      pure (s.set i (p', .ingress packetInState))
    | (p, .egress) =>
      let p' ← p.call prog.typeId primitive
      pure (s.set i (p', .egress))
    | _ => .error .id
  | .ingressClone i n phv register0 fieldListId => do
    match ← orFault .id s[i]? with
    | (p, .ingress packetInState) =>
      let copy ← prog.keepFields (cloneNoPHV packetInState phv register0) p.packet.phv fieldListId 1
      let copy ← prog.parse copy n
      pure (s ++ [(copy, .egressBuffers)])
    | _ => .error .id
  | .resubmit i phv register0 fieldListId => do
    match ← orFault .id s[i]? with
    | (p, .ingress packetInState) =>
      let copy ← prog.keepFields (cloneNoPHV packetInState phv register0) p.packet.phv fieldListId 6
      pure (s.set i (copy, .inputBuffer))
    | _ => .error .id
  | .replicate i egressPort rid phv => do
    match ← orFault .id s[i]? with
    | (p, .ingress packetInState) =>
      let instanceType ← p.packet.phv.getField prog.instanceType
      let src ← p.packet.phv.setValue prog.bridgePort egressPort
      let src ← src.setValue prog.egressRid rid
      let src ← src.setValue prog.instanceType 5
      let copy := cloneWithPHV (p.setPHV src) phv p.register0
      let src ← src.setValue prog.instanceType instanceType.value
      pure (s.set i (p.setPHV src, .ingress packetInState) ++ [(copy, .egressBuffers)])
    | _ => .error .id
  | .enqueue i => do
    match ← orFault .id s[i]? with
    | (p, .ingress _) => pure (s.set i (p, .egressBuffers))
    | _ => .error .id
  | .egress i => do
    match ← orFault .id s[i]? with
    | (p, .egressBuffers) =>
      let phv ← p.packet.phv.setValue prog.packetLength p.register0.toNat
      pure (s.set i (p.setPHV phv, .egress))
    | _ => .error .id
  | .egressClone i phv register0 fieldListId => do
    match ← orFault .id s[i]? with
    | (p, .egress) =>
      let copy ← prog.keepFields (cloneWithPHV p phv register0) p.packet.phv fieldListId 2
      pure (s ++ [(copy, .egressBuffers)])
    | _ => .error .id
  | .recirculate i phv register0 fieldListId => do
    match ← orFault .id s[i]? with
    | (p, .egress) =>
      let packet ← orFault .id (prog.deparser.deparse p.packet)
      let copy ← prog.keepFields (cloneNoPHV packet.buffer phv register0) packet.phv fieldListId 4
      let size := copy.packet.buffer.data.length
      let phv ← copy.packet.phv.setValue prog.packetLength size
      pure (s.set i ({ copy.setPHV phv with register0 := UInt64.ofNat size }, .inputBuffer))
    | _ => .error .id
  | .done i => pure (s.eraseIdx i)

/-- One call; `none` when it does not go through. -/
def step (s : Instances) (op : Op) : Option Instances := (prog.exec s op).toOption

end SwitchProgram

end Bm
