/-
# What the loops need from a packet

An iteration of the ingress loop and of the egress loop goes through exactly when the ports and the
field lists that it takes from the metadata, the mirroring map and the multicast engine exist, and a
packet that is resubmitted finds room.  Then every copy is in the queue of one worker, or has been
dropped.
-/
import Bmv2.PhvLayout

namespace Bm

/-! ## Items that are queued -/

namespace QueueingLogicRL

variable {T : Type} {q q' q'' : QueueingLogicRL T} {ports ports' : List ℤ}

/-- An item with its port. -/
def entry (qe : QE T) : ℕ × T := (qe.queueId, qe.e)

/-- Copies for some ports have been pushed: the ports are known, and each copy is in the queue of
the worker of its port, unless it has been dropped as that queue was full. -/
structure Delivered (q q' : QueueingLogicRL T) (ports : List ℤ) : Prop where
  sound : q'.Sound
  nbWorkers : q'.nbWorkers = q.nbWorkers
  length : q'.queuesInfo.length = q.queuesInfo.length
  copies : ∃ copies : List (ℕ × T), copies.map (fun c => (c.1 : ℤ)) = ports ∧
    (∀ c ∈ copies, c.1 < q.queuesInfo.length) ∧
    ∃ accepted, List.Sublist accepted copies ∧ ∀ w, (q'.items w).map entry =
      (accepted.filter fun c => c.1 % q.nbWorkers = w).reverse ++ (q.items w).map entry

theorem Delivered.refl (h : q.Sound) : Delivered q q [] where
  sound := h
  nbWorkers := rfl
  length := rfl
  copies := ⟨[], rfl, fun _ hc => absurd hc List.not_mem_nil, [], .slnil, fun _ => rfl⟩

theorem Delivered.trans (h : Delivered q q' ports) (h' : Delivered q' q'' ports') :
    Delivered q q'' (ports ++ ports') where
  sound := h'.sound
  nbWorkers := h'.nbWorkers.trans h.nbWorkers
  length := h'.length.trans h.length
  copies := by
    obtain ⟨copies, hports, hknown, accepted, hsub, hitems⟩ := h.copies
    obtain ⟨copies', hports', hknown', accepted', hsub', hitems'⟩ := h'.copies
    refine ⟨copies ++ copies', ?_, fun c hc => ?_, accepted ++ accepted', hsub.append hsub',
      fun w => ?_⟩
    · rw [List.map_append, hports, hports']
    · rcases List.mem_append.mp hc with hc | hc
      · exact hknown c hc
      · exact h.length ▸ hknown' c hc
    · rw [hitems', hitems, h.nbWorkers, List.filter_append, List.reverse_append, List.append_assoc]

/-- One copy is pushed. -/
theorem Sound.delivered (h : q.Sound) {queueId now : ℕ} {item : T} {queued : Bool}
    (hknown : queueId < q.queuesInfo.length)
    (hpush : q.pushFront queueId item now = some (queued, q')) : Delivered q q' [(queueId : ℤ)] := by
  have hports : ([(queueId, item)] : List (ℕ × T)).map (fun c => (c.1 : ℤ)) = [(queueId : ℤ)] := rfl
  have hcopies : ∀ c ∈ [(queueId, item)], c.1 < q.queuesInfo.length := by
    intro c hc
    rw [List.mem_singleton.mp hc]
    exact hknown
  rcases h.pushFront item now hknown with hfull | ⟨q₁, send, hq₁, hsound, hworkers, hlength, hitems⟩
  · cases hpush.symm.trans hfull
    exact ⟨h, rfl, rfl, _, hports, hcopies, [], List.nil_sublist _, fun _ => rfl⟩
  · cases hpush.symm.trans hq₁
    refine ⟨hsound, hworkers, hlength, _, hports, hcopies, _, List.Sublist.refl _, fun w => ?_⟩
    rw [hitems]
    by_cases hw : w = queueId % q.nbWorkers
    · subst hw
      rw [Function.update_self]
      simp [entry]
    · rw [Function.update_of_ne hw, List.filter_cons_of_neg (by simpa using Ne.symm hw)]
      rfl

theorem Sound.size_eq_none_iff (h : q.Sound) {queueId : ℕ} :
    q.size queueId = none ↔ q.queuesInfo.length ≤ queueId := by
  rw [size, mapToWorker, h.exists_worker (Nat.mod_lt _ h.pos), ← List.getElem?_eq_none_iff]
  cases q.queuesInfo[queueId]? <;> simp

end QueueingLogicRL

/-! ## Configurations -/

/-- What loading a configuration has checked: the fields that it names are there, `clone_spec` is a
field of its own, and the parser, the pipelines and the deparser work on PHVs of one layout. -/
structure TargetConfig.Loaded (c : TargetConfig) (layout : List ℕ) : Prop where
  required : ∀ f ∈ [c.egressSpec, c.cloneSpec, c.instanceType, c.egressPort, c.packetLength],
    InLayout layout f
  optional : ∀ o ∈ [c.lfFieldList, c.mcastGrp, c.resubmitFlag, c.egressRid, c.bridgePort,
    c.recirculateFlag], ∀ f ∈ o, InLayout layout f
  queueing : ∀ q ∈ c.queueing, ∀ f ∈ [q.enqTimestamp, q.enqQdepth, q.deqTimedelta, q.deqQdepth],
    InLayout layout f
  fieldLists : ∀ id, ∀ fieldList ∈ c.fieldList id, ∀ f ∈ fieldList, InLayout layout f
  egressSpec_ne : c.egressSpec ≠ c.cloneSpec
  resubmitFlag_ne : c.resubmitFlag ≠ some c.cloneSpec
  parse : ∀ p, p.packet.phv.layout = layout → (c.parse p).packet.phv.layout = layout
  ingressMau : ∀ p, p.packet.phv.layout = layout → (c.ingressMau p).packet.phv.layout = layout
  egressMau : ∀ p, p.packet.phv.layout = layout → (c.egressMau p).packet.phv.layout = layout
  deparse : ∀ p, p.packet.phv.layout = layout → (c.deparse p).packet.phv.layout = layout

namespace TargetConfig

variable {c : TargetConfig} {layout : List ℕ} {phv copy : DataPHV}

/-- The value of a field, which is 0 when it is missing. -/
def read (f : Option (ℕ × ℕ)) (phv : DataPHV) : ℤ := (f.bind phv.valueAt).getD 0

theorem valueAt_eq_read {f : ℕ × ℕ} (hf : InLayout phv.layout f) :
    phv.valueAt f = some (read (some f) phv) := by
  obtain ⟨value, hvalue⟩ := DataPHV.exists_valueAt phv hf
  rw [read, Option.bind_some, hvalue, Option.getD_some]

theorem optionalValue_eq_read {o : Option (ℕ × ℕ)} (ho : ∀ f ∈ o, InLayout phv.layout f) :
    optionalValue o phv = some (read o phv) := by
  cases o with
  | none => rfl
  | some f => exact valueAt_eq_read (ho f rfl)

theorem flagged_eq {o : Option (ℕ × ℕ)} (ho : ∀ f ∈ o, InLayout phv.layout f) :
    flagged o phv = some (if getInt (read o phv) ≠ 0 then o.map fun f => (f, getInt (read o phv))
      else none) := by
  cases o with
  | none =>
    rw [flagged]
    split <;> rfl
  | some f =>
    rw [flagged, valueAt_eq_read (ho f rfl)]
    rfl

/-- A field that is not set is read as before. -/
theorem read_of_ne {phv' : DataPHV} {o : Option (ℕ × ℕ)} {f : ℕ × ℕ} (ho : o ≠ some f)
    (hsame : ∀ f' ≠ f, phv'.valueAt f' = phv.valueAt f') : read o phv' = read o phv := by
  cases o with
  | none => rfl
  | some g =>
    have hg : g ≠ f := fun heq => ho (by rw [heq])
    rw [read, read, Option.bind_some, Option.bind_some, hsame g hg]

theorem Loaded.carryFields (h : c.Loaded layout) (hcopy : copy.layout = layout)
    (hphv : phv.layout = layout) {fieldListId : ℤ} (hlist : (c.fieldList fieldListId).isSome)
    (copyType : ℤ) : ∃ copy', c.carryFields copy phv fieldListId copyType = some copy' ∧ copy'.layout = layout := by
  obtain ⟨fieldList, hfieldList⟩ := Option.isSome_iff_exists.mp hlist
  have hreset : copy.resetMetadata.layout = layout := (DataPHV.layout_resetMetadata copy).trans hcopy
  obtain ⟨copy₁, hcopy₁, hlayout₁⟩ := DataPHV.exists_copyFieldList copy.resetMetadata
    phv 
    (fun f hf => hreset ▸ h.fieldLists fieldListId fieldList hfieldList f hf)
    (hphv.trans hreset.symm)
  obtain ⟨copy₂, hcopy₂, hlayout₂, -⟩ := DataPHV.exists_setAt copy₁ (f := c.instanceType)
    ((hlayout₁.trans hreset) ▸ h.required _ (by simp)) copyType
  refine ⟨copy₂, ?_, hlayout₂.trans (hlayout₁.trans hreset)⟩
  rw [TargetConfig.carryFields, hfieldList]
  simp only [Option.bind_eq_bind, Option.bind_some, hcopy₁, Except.toOption, hcopy₂]

/-- A field list that does not exist throws. -/
theorem carryFields_eq_none {fieldListId copyType : ℤ} (hlist : c.fieldList fieldListId = none) :
    c.carryFields copy phv fieldListId copyType = none := by
  rw [TargetConfig.carryFields, hlist]
  rfl

end TargetConfig

namespace SimpleSwitch

variable {s : SimpleSwitch} {layout : List ℕ}

/-- The queues have this port. -/
def Knows (s : SimpleSwitch) (port : ℤ) : Prop :=
  0 ≤ port ∧ port.toNat < s.egressBuffers.queuesInfo.length

instance (port : ℤ) : Decidable (s.Knows port) := inferInstanceAs (Decidable (_ ∧ _))

/-- The switch with other queues. -/
def withQueues (s : SimpleSwitch) (q : QueueingLogicRL (PacketInstance × ℤ)) : SimpleSwitch :=
  { s with egressBuffers := q }

/-- The depth of a queue that exists. -/
theorem exists_size (hsound : s.egressBuffers.Sound) {queueId : ℕ}
    (hlt : queueId < s.egressBuffers.queuesInfo.length) :
    ∃ depth, s.egressBuffers.size queueId = some depth :=
  Option.ne_none_iff_exists'.mp fun hnone =>
    absurd (hsound.size_eq_none_iff.mp hnone) (not_le.mpr hlt)

theorem setEnqueued_known (hsound : s.egressBuffers.Sound) (hloaded : s.config.Loaded layout)
    {phv : DataPHV} (hlayout : phv.layout = layout) {queueId : ℕ}
    (hlt : queueId < s.egressBuffers.queuesInfo.length) (now : ℕ) :
    ∃ phv', s.setEnqueued queueId phv now = some phv' := by
  unfold setEnqueued
  cases hqueueing : s.config.queueing with
  | none => exact ⟨_, rfl⟩
  | some f =>
    have hfields := hloaded.queueing f hqueueing
    obtain ⟨phv₁, hset₁, hlayout₁, -⟩ := DataPHV.exists_setAt phv (f := f.enqTimestamp)
      (hlayout ▸ hfields _ (by simp)) now
    obtain ⟨depth, hdepth⟩ := exists_size hsound hlt
    obtain ⟨phv₂, hset₂, -, -⟩ := DataPHV.exists_setAt phv₁ (f := f.enqQdepth)
      ((hlayout₁.trans hlayout) ▸ hfields _ (by simp)) depth
    refine ⟨phv₂, ?_⟩
    simp only [hset₁, hdepth, Option.bind_eq_bind, Option.bind_some, hset₂]

/-- **`enqueue`**, to a port that the queues have. -/
theorem enqueue_known (hsound : s.egressBuffers.Sound) (hloaded : s.config.Loaded layout)
    (packet : PacketInstance) (hlayout : packet.packet.phv.layout = layout) {port : ℤ}
    (hknown : s.Knows port) (now : ℕ) :
    ∃ q, s.enqueue port packet now = some (s.withQueues q) ∧
      s.egressBuffers.Delivered q [port] := by
  obtain ⟨hpos, hlt⟩ := hknown
  obtain ⟨phv, hphv⟩ := setEnqueued_known hsound hloaded hlayout hlt now
  have hpush : ∃ queued q, s.egressBuffers.pushFront port.toNat (packet.setPHV phv, port) now =
      some (queued, q) := by
    rcases hsound.pushFront (packet.setPHV phv, port) now hlt with hfull | ⟨q, _, hq, -⟩
    · exact ⟨_, _, hfull⟩
    · exact ⟨_, _, hq⟩
  obtain ⟨queued, q, hpush⟩ := hpush
  have hdelivered := hsound.delivered hlt hpush
  rw [Int.toNat_of_nonneg hpos] at hdelivered
  refine ⟨q, ?_, hdelivered⟩
  rw [enqueue, portIndex, if_pos hpos]
  simp only [Option.bind_eq_bind, Option.bind_some, hphv, hpush]
  rfl

/-- **An unknown port** throws. -/
theorem enqueue_unknown {packet : PacketInstance} {port : ℤ} (hunknown : ¬ s.Knows port) (now : ℕ) :
    s.enqueue port packet now = none := by
  rw [enqueue, portIndex]
  split
  · rename_i hpos
    have hle : s.egressBuffers.queuesInfo.length ≤ port.toNat :=
      not_lt.mp fun hlt => hunknown ⟨hpos, hlt⟩
    simp only [Option.bind_eq_bind, Option.bind_some]
    rw [Option.bind_eq_none_iff]
    intro phv _
    rw [QueueingLogicRL.pushFront_unknown hle]
    rfl
  · rfl

/-! ## Ingress -/

/-- A clone session leads to a port that the queues have, with a field list that exists, or
nowhere. -/
def Mirrors (s : SimpleSwitch) (cloneSpec : ℕ) : Prop :=
  cloneSpec ≠ 0 → 0 ≤ s.getMirroringMapping (cloneSpec &&& 0xFFFF : ℕ) →
    (s.config.fieldList (cloneSpec >>> 16 : ℕ)).isSome ∧
      s.Knows (s.getMirroringMapping (cloneSpec &&& 0xFFFF : ℕ))

/-- The port of the clone, if there is one. -/
def mirrorPorts (s : SimpleSwitch) (cloneSpec : ℕ) : List ℤ :=
  if cloneSpec ≠ 0 ∧ 0 ≤ s.getMirroringMapping (cloneSpec &&& 0xFFFF : ℕ) then
    [s.getMirroringMapping (cloneSpec &&& 0xFFFF : ℕ)]
  else []

/-- The replicas of a group can be made, for ports that the queues have. -/
def Replicates (s : SimpleSwitch) (mgid : ℕ) : Prop :=
  s.config.egressRid.isSome ∧ ∃ outs, s.pre.replicate mgid = some outs ∧
    ∀ out ∈ outs, s.config.bridgePort.isSome ∧ s.Knows out.egressPort

/-- The field list with this id exists, and `input_buffer` has room. -/
def Resubmits (s : SimpleSwitch) (fieldListId : ℤ) : Prop :=
  (s.config.fieldList fieldListId).isSome ∧ s.inputBuffer.queue.length < s.inputBuffer.capacity

theorem copyIngressPkt_some (hloaded : s.config.Loaded layout) {phv : DataPHV}
    (hlayout : phv.layout = layout) {src : CopySource} (hsrc : src.phv.layout = layout)
    (packetInState : PacketBuffer) (copyType : ℤ) {fieldListId : ℤ}
    (hlist : (s.config.fieldList fieldListId).isSome) :
    ∃ copy, s.config.copyIngressPkt packetInState phv copyType fieldListId src = some copy ∧
      copy.packet.phv.layout = layout := by
  have hclone : (SwitchProgram.cloneNoPHV packetInState src.phv
      src.register0).packet.phv.layout = layout := hsrc
  obtain ⟨phvCopy, hcarry, hlayoutCopy⟩ := hloaded.carryFields hclone hlayout hlist copyType
  refine ⟨(SwitchProgram.cloneNoPHV packetInState src.phv src.register0).setPHV phvCopy, ?_,
    hlayoutCopy⟩
  rw [TargetConfig.copyIngressPkt]
  simp only [Option.bind_eq_bind, hcarry, Option.bind_some]
  rfl

theorem copyIngressPkt_none {phv : DataPHV} {src : CopySource} (packetInState : PacketBuffer)
    (copyType : ℤ) {fieldListId : ℤ} (hlist : s.config.fieldList fieldListId = none) :
    s.config.copyIngressPkt packetInState phv copyType fieldListId src = none := by
  rw [TargetConfig.copyIngressPkt]
  simp only [Option.bind_eq_bind, TargetConfig.carryFields_eq_none hlist, Option.bind_none]

/-- **Ingress cloning** goes through when the session can be mirrored. -/
theorem ingressClone_some (hsound : s.egressBuffers.Sound) (hloaded : s.config.Loaded layout)
    {phv : DataPHV} (hlayout : phv.layout = layout) {src : CopySource}
    (hsrc : src.phv.layout = layout) (packetInState : PacketBuffer) {cloneSpec : ℕ}
    (hmirrors : s.Mirrors cloneSpec) :
    ∃ q phv', s.ingressClone packetInState phv cloneSpec src = some (s.withQueues q, phv') ∧
      s.egressBuffers.Delivered q (s.mirrorPorts cloneSpec) ∧ phv'.layout = layout ∧
      ∀ f ≠ s.config.cloneSpec, phv'.valueAt f = phv.valueAt f := by
  rw [ingressClone, mirrorPorts]
  by_cases hzero : cloneSpec = 0
  · rw [if_pos hzero, if_neg (fun h => h.1 hzero)]
    exact ⟨s.egressBuffers, phv, rfl, .refl hsound, hlayout, fun _ _ => rfl⟩
  · rw [if_neg hzero]
    obtain ⟨phv', hset, hlayout', hsame⟩ := DataPHV.exists_setAt phv
      (f := s.config.cloneSpec) (hlayout ▸ hloaded.required _ (by simp)) 0
    simp only [hset, Option.bind_eq_bind, Option.bind_some]
    by_cases hport : 0 ≤ s.getMirroringMapping (cloneSpec &&& 0xFFFF : ℕ)
    · obtain ⟨hlist, hknown⟩ := hmirrors hzero hport
      obtain ⟨copy, hcopy, hlayoutCopy⟩ := copyIngressPkt_some hloaded (hlayout'.trans hlayout) hsrc
        packetInState 1 hlist
      obtain ⟨q, hq, hdelivered⟩ := enqueue_known hsound hloaded _ (hloaded.parse copy hlayoutCopy)
        hknown src.now
      rw [if_neg (not_lt.mpr hport), if_pos ⟨hzero, hport⟩, hcopy, Option.bind_some, hq]
      exact ⟨q, phv', rfl, hdelivered, hlayout'.trans hlayout, hsame⟩
    · rw [if_pos (not_le.mp hport), if_neg (fun h => hport h.2)]
      exact ⟨s.egressBuffers, phv', rfl, .refl hsound, hlayout'.trans hlayout, hsame⟩

theorem ingressClone_none {phv : DataPHV} {src : CopySource} (packetInState : PacketBuffer)
    {cloneSpec : ℕ} (hmirrors : ¬ s.Mirrors cloneSpec) :
    s.ingressClone packetInState phv cloneSpec src = none := by
  obtain ⟨hzero, hmirrors⟩ := Classical.not_imp.mp hmirrors
  obtain ⟨hport, hmirrors⟩ := Classical.not_imp.mp hmirrors
  rw [ingressClone, if_neg hzero]
  simp only [Option.bind_eq_bind]
  rw [Option.bind_eq_none_iff]
  intro phv' _
  rw [if_neg (not_lt.mpr hport)]
  cases hlist : s.config.fieldList (cloneSpec >>> 16 : ℕ) with
  | none => rw [copyIngressPkt_none packetInState 1 hlist, Option.bind_none]
  | some fieldList =>
    rw [Option.bind_eq_none_iff]
    intro copy _
    rw [enqueue_unknown fun hknown => hmirrors ⟨by rw [hlist]; rfl, hknown⟩, Option.bind_none]

/-- **Resubmission** goes through exactly with a field list that exists and room. -/
theorem resubmit_some (hloaded : s.config.Loaded layout) {phv : DataPHV}
    (hlayout : phv.layout = layout) {src : CopySource} (hsrc : src.phv.layout = layout)
    (packetInState : PacketBuffer) {flag : ℕ × ℕ} (hflag : InLayout layout flag) {fieldListId : ℤ}
    (hresubmits : s.Resubmits fieldListId) :
    ∃ copy inputBuffer, s.resubmit packetInState phv flag fieldListId src =
        some { s with inputBuffer } ∧ s.inputBuffer.pushFront copy = some inputBuffer := by
  obtain ⟨phv', hset, hlayout', -⟩ := DataPHV.exists_setAt phv (f := flag)
    (hlayout ▸ hflag) 0
  obtain ⟨copy, hcopy, -⟩ := copyIngressPkt_some hloaded (hlayout'.trans hlayout) hsrc packetInState 6
    hresubmits.1
  obtain ⟨inputBuffer, hpush⟩ : ∃ inputBuffer, s.inputBuffer.pushFront copy = some inputBuffer :=
    ⟨_, Queue.pushFront_eq_some.mpr ⟨hresubmits.2, rfl⟩⟩
  refine ⟨copy, inputBuffer, ?_, hpush⟩
  rw [resubmit]
  simp only [hset, hcopy, hpush, Option.bind_eq_bind, Option.bind_some]
  rfl

theorem resubmit_none {phv : DataPHV} {src : CopySource} (packetInState : PacketBuffer)
    {flag : ℕ × ℕ} {fieldListId : ℤ} (hresubmits : ¬ s.Resubmits fieldListId) :
    s.resubmit packetInState phv flag fieldListId src = none := by
  rw [resubmit]
  simp only [Option.bind_eq_bind]
  rw [Option.bind_eq_none_iff]
  intro phv' _
  cases hlist : s.config.fieldList fieldListId with
  | none => rw [copyIngressPkt_none packetInState 6 hlist, Option.bind_none]
  | some fieldList =>
    rw [Option.bind_eq_none_iff]
    intro copy _
    have hfull : s.inputBuffer.pushFront copy = none := by
      rw [Queue.pushFront_eq_none]
      exact not_lt.mp fun hlt => hresubmits ⟨by rw [hlist]; rfl, hlt⟩
    rw [hfull, Option.bind_none]

/-- One replica. -/
theorem replicateTo_some (hsound : s.egressBuffers.Sound) (hloaded : s.config.Loaded layout)
    {phv : DataPHV} (hlayout : phv.layout = layout) {rid : ℕ × ℕ} (hrid : InLayout layout rid)
    (packet : PacketInstance) {out : McOut × CopySource} (hsrc : out.2.phv.layout = layout)
    (hbridge : s.config.bridgePort.isSome) (hknown : s.Knows out.1.egressPort) :
    ∃ q phv', replicateTo rid packet (s, phv) out = some (s.withQueues q, phv') ∧
      s.egressBuffers.Delivered q [(out.1.egressPort : ℤ)] ∧ phv'.layout = layout := by
  obtain ⟨bridgePort, hbridgePort⟩ := Option.isSome_iff_exists.mp hbridge
  obtain ⟨phv₁, hset₁, hlayout₁, -⟩ := DataPHV.exists_setAt phv (f := bridgePort)
    (hlayout ▸ hloaded.optional _ (by simp) _ hbridgePort) out.1.egressPort
  obtain ⟨phv₂, hset₂, hlayout₂, -⟩ := DataPHV.exists_setAt phv₁ (f := rid)
    ((hlayout₁.trans hlayout) ▸ hrid) out.1.rid
  obtain ⟨phv₃, hset₃, hlayout₃, -⟩ := DataPHV.exists_setAt phv₂
    (f := s.config.instanceType)
    ((hlayout₂.trans (hlayout₁.trans hlayout)) ▸ hloaded.required _ (by simp)) 5
  have hphv₃ : phv₃.layout = layout := hlayout₃.trans (hlayout₂.trans (hlayout₁.trans hlayout))
  have hcopy : (SwitchProgram.cloneWithPHV (packet.setPHV phv₃) out.2.phv
      packet.register0).packet.phv.layout = layout :=
    (DataPHV.layout_copyHeaders (hphv₃.trans hsrc.symm)).trans hsrc
  obtain ⟨q, hq, hdelivered⟩ := enqueue_known hsound hloaded _ hcopy hknown out.2.now
  refine ⟨q, phv₃, ?_, hdelivered, hphv₃⟩
  rw [replicateTo]
  simp only [hbridgePort, hset₁, hset₂, hset₃, Option.bind_eq_bind, Option.bind_some, hq]
  rfl

/-- The loop over the replicas. -/
theorem foldlM_replicateTo_some (hsound : s.egressBuffers.Sound) (hloaded : s.config.Loaded layout)
    {phv : DataPHV} (hlayout : phv.layout = layout) {rid : ℕ × ℕ} (hrid : InLayout layout rid)
    (packet : PacketInstance) (outs : List (McOut × CopySource))
    (houts : ∀ out ∈ outs, out.2.phv.layout = layout ∧ s.config.bridgePort.isSome ∧
      s.Knows out.1.egressPort) :
    ∃ q phv', outs.foldlM (replicateTo rid packet) (s, phv) = some (s.withQueues q, phv') ∧
      s.egressBuffers.Delivered q (outs.map fun out => (out.1.egressPort : ℤ)) := by
  induction outs generalizing s phv with
  | nil => exact ⟨s.egressBuffers, phv, rfl, .refl hsound⟩
  | cons out outs ih =>
    obtain ⟨hsrc, hbridge, hknown⟩ := houts out (by simp)
    obtain ⟨q, phv', hstep, hdelivered, hlayout'⟩ := replicateTo_some hsound hloaded hlayout hrid
      packet hsrc hbridge hknown
    obtain ⟨q', phv'', hrest, hdelivered'⟩ := ih (s := s.withQueues q) hdelivered.sound hloaded
      hlayout' fun out' hout' => by
        obtain ⟨hsrc', hbridge', hpos', hlt'⟩ := houts out' (by simp [hout'])
        refine ⟨hsrc', hbridge', hpos', ?_⟩
        show _ < q.queuesInfo.length
        rw [hdelivered.length]
        exact hlt'
    refine ⟨q', phv'', ?_, hdelivered.trans hdelivered'⟩
    rw [List.foldlM_cons, hstep]
    exact hrest

/-- What a replica leaves as it is. -/
theorem replicateTo_frame (hsound : s.egressBuffers.Sound) {phv : DataPHV} {rid : ℕ × ℕ}
    {packet : PacketInstance} {out : McOut × CopySource} {r : SimpleSwitch × DataPHV}
    (h : replicateTo rid packet (s, phv) out = some r) :
    r.1.config = s.config ∧ r.1.egressBuffers.Sound ∧
      r.1.egressBuffers.queuesInfo.length = s.egressBuffers.queuesInfo.length := by
  obtain ⟨bridgePort, -, h⟩ := Option.bind_eq_some_iff.mp h
  obtain ⟨phv₁, -, h⟩ := Option.bind_eq_some_iff.mp h
  obtain ⟨phv₂, -, h⟩ := Option.bind_eq_some_iff.mp h
  obtain ⟨phv₃, -, h⟩ := Option.bind_eq_some_iff.mp h
  obtain ⟨s', henqueue, h⟩ := Option.bind_eq_some_iff.mp h
  cases h
  rw [enqueue] at henqueue
  simp only [Option.bind_eq_bind, Option.bind_eq_some_iff] at henqueue
  obtain ⟨queueId, -, phv₄, -, ⟨queued, q⟩, hpush, heq⟩ := henqueue
  cases heq
  obtain ⟨hsound', -, hlength⟩ := hsound.moved (.inr (.inl ⟨_, _, _, _, hpush⟩))
  exact ⟨rfl, hsound', hlength⟩

/-- A replica for an unknown port throws. -/
theorem replicateTo_none {phv : DataPHV} {rid : ℕ × ℕ} (packet : PacketInstance)
    {out : McOut × CopySource}
    (hunknown : ¬ (s.config.bridgePort.isSome ∧ s.Knows out.1.egressPort)) :
    replicateTo rid packet (s, phv) out = none := by
  rw [replicateTo]
  simp only [Option.bind_eq_bind]
  cases hbridge : s.config.bridgePort with
  | none => rfl
  | some bridgePort =>
    have hport : ¬ s.Knows out.1.egressPort :=
      fun hknown => hunknown ⟨by rw [hbridge]; rfl, hknown⟩
    rw [Option.bind_some]
    simp only [enqueue_unknown hport, Option.bind_none, Option.bind_eq_none_iff, implies_true]

theorem foldlM_replicateTo_none (hsound : s.egressBuffers.Sound) {phv : DataPHV} {rid : ℕ × ℕ}
    (packet : PacketInstance) {outs : List (McOut × CopySource)} {out : McOut × CopySource}
    (hout : out ∈ outs) (hunknown : ¬ (s.config.bridgePort.isSome ∧ s.Knows out.1.egressPort)) :
    outs.foldlM (replicateTo rid packet) (s, phv) = none := by
  induction outs generalizing s phv with
  | nil => cases hout
  | cons out' outs ih =>
    rw [List.foldlM_cons]
    cases hstep : replicateTo rid packet (s, phv) out' with
    | none => rfl
    | some r =>
      obtain ⟨hconfig, hsound', hlength⟩ := replicateTo_frame hsound hstep
      rcases List.mem_cons.mp hout with rfl | hout
      · rw [replicateTo_none packet hunknown] at hstep
        cases hstep
      · obtain ⟨s', phv'⟩ := r
        refine ih hsound' hout ?_
        rw [hconfig, Knows, hlength]
        exact hunknown

/-- **Multicast** goes through exactly when the group can be replicated to ports that the queues
have. -/
theorem multicast_some (hsound : s.egressBuffers.Sound) (hloaded : s.config.Loaded layout)
    {phv : DataPHV} (hlayout : phv.layout = layout) (packet : PacketInstance)
    {src : ℕ → CopySource} (hsrc : ∀ i, (src i).phv.layout = layout) {mgid : ℕ}
    (hreplicates : s.Replicates mgid) :
    ∃ q, s.multicast packet phv mgid src = some (s.withQueues q) ∧
      s.egressBuffers.Delivered q
        (((s.pre.replicate mgid).getD []).map fun out => (out.egressPort : ℤ)) := by
  obtain ⟨hrid, outs, houts, hports⟩ := hreplicates
  obtain ⟨rid, hrid⟩ := Option.isSome_iff_exists.mp hrid
  obtain ⟨q, phv', hloop, hdelivered⟩ := foldlM_replicateTo_some hsound hloaded hlayout
    (hloaded.optional _ (by simp) _ hrid) packet
    (outs.zipIdx.map fun out => (out.1, src out.2)) (by
      intro out hout
      obtain ⟨⟨o, i⟩, ho, rfl⟩ := List.mem_map.mp hout
      obtain ⟨hbridge, hknown⟩ := hports o (List.fst_mem_of_mem_zipIdx ho)
      exact ⟨hsrc i, hbridge, hknown⟩)
  refine ⟨q, ?_, ?_⟩
  · rw [multicast, hrid, houts]
    simp only [Option.bind_eq_bind, Option.bind_some, hloop]
    rfl
  · rw [List.map_map] at hdelivered
    rw [houts, Option.getD_some]
    have hmap : outs.zipIdx.map ((fun out : McOut × CopySource => (out.1.egressPort : ℤ)) ∘
        fun out => (out.1, src out.2)) = outs.map fun out => (out.egressPort : ℤ) := by
      conv_rhs => rw [← List.zipIdx_map_fst 0 outs, List.map_map]
      rfl
    rw [← hmap]
    exact hdelivered

theorem multicast_none (hsound : s.egressBuffers.Sound) {phv : DataPHV} (packet : PacketInstance)
    {src : ℕ → CopySource} {mgid : ℕ} (hreplicates : ¬ s.Replicates mgid) :
    s.multicast packet phv mgid src = none := by
  rw [multicast]
  simp only [Option.bind_eq_bind]
  cases hrid : s.config.egressRid with
  | none => rfl
  | some rid =>
    cases houts : s.pre.replicate mgid with
    | none => rfl
    | some outs =>
      simp only [Option.bind_some]
      have hbad : ∃ out ∈ outs, ¬ (s.config.bridgePort.isSome ∧ s.Knows out.egressPort) := by
        by_contra hall
        push Not at hall
        exact hreplicates ⟨by rw [hrid]; rfl, outs, houts, hall⟩
      obtain ⟨out, hout, hunknown⟩ := hbad
      obtain ⟨i, hi⟩ := List.getElem?_of_mem hout
      have hmem : (out, src i) ∈ outs.zipIdx.map fun out => (out.1, src out.2) :=
        List.mem_map.mpr ⟨(out, i), List.mk_mem_zipIdx_iff_getElem?.mpr hi, rfl⟩
      rw [foldlM_replicateTo_none hsound packet hmem hunknown, Option.bind_none]

/-- What the ingress loop needs after cloning. -/
def ForwardSafe (s : SimpleSwitch) (resubmitFlag : ℤ) (mgid : ℕ) (egressSpec : ℤ) : Prop :=
  if resubmitFlag ≠ 0 then s.Resubmits resubmitFlag
  else if mgid ≠ 0 then s.Replicates mgid
  else egressSpec = 511 ∨ s.Knows egressSpec

/-- The ports of the packet or of its replicas. -/
def forwardPorts (s : SimpleSwitch) (resubmitFlag : ℤ) (mgid : ℕ) (egressSpec : ℤ) : List ℤ :=
  if resubmitFlag ≠ 0 then []
  else if mgid ≠ 0 then ((s.pre.replicate mgid).getD []).map fun out => (out.egressPort : ℤ)
  else if egressSpec = 511 then [] else [egressSpec]

/-- A packet that is resubmitted is in `input_buffer`, which is as before otherwise. -/
def Resubmitted (s s' : SimpleSwitch) (resubmitFlag : ℤ) : Prop :=
  if resubmitFlag ≠ 0 then ∃ copy, s.inputBuffer.pushFront copy = some s'.inputBuffer
  else s'.inputBuffer = s.inputBuffer

theorem forward_some (hsound : s.egressBuffers.Sound) (hloaded : s.config.Loaded layout)
    {phv : DataPHV} (hlayout : phv.layout = layout) (packetInState : PacketBuffer)
    (packet : PacketInstance) {src : ℕ → CopySource} (hsrc : ∀ i, (src i).phv.layout = layout)
    {egressSpec : ℤ} {mgid : ℕ}
    (hsafe : s.ForwardSafe (getInt (TargetConfig.read s.config.resubmitFlag phv)) mgid egressSpec) :
    ∃ s', s.forward packetInState packet phv egressSpec mgid src = some s' ∧
      s.egressBuffers.Delivered s'.egressBuffers (s.forwardPorts
        (getInt (TargetConfig.read s.config.resubmitFlag phv)) mgid egressSpec) ∧
      s.Resubmitted s' (getInt (TargetConfig.read s.config.resubmitFlag phv)) := by
  have hflag : ∀ f ∈ s.config.resubmitFlag, InLayout phv.layout f := fun f hf =>
    hlayout ▸ hloaded.optional _ (by simp) f hf
  unfold Resubmitted
  rw [forward, TargetConfig.flagged_eq hflag, forwardPorts]
  rw [ForwardSafe] at hsafe
  by_cases hresubmit : getInt (TargetConfig.read s.config.resubmitFlag phv) = 0
  · rw [if_neg (not_not.mpr hresubmit)] at hsafe
    simp only [Option.bind_eq_bind, Option.bind_some, if_neg (not_not.mpr hresubmit)]
    by_cases hmgid : mgid = 0
    · rw [if_neg (not_not.mpr hmgid)] at hsafe
      simp only [if_neg (not_not.mpr hmgid)]
      by_cases hdrop : egressSpec = 511
      · rw [if_pos hdrop, if_pos hdrop]
        exact ⟨s, rfl, .refl hsound, rfl⟩
      · rw [if_neg hdrop, if_neg hdrop]
        obtain ⟨q, hq, hdelivered⟩ := enqueue_known hsound hloaded (packet.setPHV phv)
          hlayout (hsafe.resolve_left hdrop) (src 0).now
        exact ⟨_, hq, hdelivered, rfl⟩
    · rw [if_pos hmgid] at hsafe
      simp only [if_pos hmgid]
      obtain ⟨q, hq, hdelivered⟩ := multicast_some hsound hloaded hlayout packet
        (fun i => hsrc (i + 1)) hsafe
      exact ⟨_, hq, hdelivered, rfl⟩
  · rw [if_pos hresubmit] at hsafe
    obtain ⟨f, hf⟩ : ∃ f, s.config.resubmitFlag = some f := by
      refine Option.ne_none_iff_exists'.mp fun hnone => hresubmit ?_
      rw [hnone]
      rfl
    obtain ⟨copy, inputBuffer, heq, hpush⟩ := resubmit_some hloaded hlayout (hsrc 0) packetInState
      (hlayout ▸ hflag f hf) hsafe
    simp only [Option.bind_eq_bind, Option.bind_some, if_pos hresubmit]
    rw [hf] at heq ⊢
    exact ⟨_, heq, .refl hsound, copy, hpush⟩

theorem forward_none (hsound : s.egressBuffers.Sound) (hloaded : s.config.Loaded layout)
    {phv : DataPHV} (hlayout : phv.layout = layout) (packetInState : PacketBuffer)
    (packet : PacketInstance) {src : ℕ → CopySource} {egressSpec : ℤ} {mgid : ℕ}
    (hfaulty : ¬ s.ForwardSafe (getInt (TargetConfig.read s.config.resubmitFlag phv)) mgid
      egressSpec) : s.forward packetInState packet phv egressSpec mgid src = none := by
  have hflag : ∀ f ∈ s.config.resubmitFlag, InLayout phv.layout f := fun f hf =>
    hlayout ▸ hloaded.optional _ (by simp) f hf
  rw [forward, TargetConfig.flagged_eq hflag]
  rw [ForwardSafe] at hfaulty
  by_cases hresubmit : getInt (TargetConfig.read s.config.resubmitFlag phv) = 0
  · rw [if_neg (not_not.mpr hresubmit)] at hfaulty
    simp only [Option.bind_eq_bind, Option.bind_some, if_neg (not_not.mpr hresubmit)]
    by_cases hmgid : mgid = 0
    · rw [if_neg (not_not.mpr hmgid), not_or] at hfaulty
      simp only [if_neg (not_not.mpr hmgid), if_neg hfaulty.1]
      exact enqueue_unknown hfaulty.2 _
    · rw [if_pos hmgid] at hfaulty
      simp only [if_pos hmgid]
      exact multicast_none hsound packet hfaulty
  · rw [if_pos hresubmit] at hfaulty
    obtain ⟨f, hf⟩ : ∃ f, s.config.resubmitFlag = some f := by
      refine Option.ne_none_iff_exists'.mp fun hnone => hresubmit ?_
      rw [hnone]
      rfl
    have hnone : s.resubmit packetInState phv f _ (src 0) = none :=
      resubmit_none packetInState hfaulty
    simp only [Option.bind_eq_bind, Option.bind_some, if_pos hresubmit]
    rw [hf] at hnone ⊢
    exact hnone

/-- What the ingress loop needs from the packet that comes out of the pipeline. -/
def IngressSafe (s : SimpleSwitch) (phv : DataPHV) : Prop :=
  s.Mirrors (getUint (TargetConfig.read s.config.cloneSpec phv)) ∧
    s.ForwardSafe (getInt (TargetConfig.read s.config.resubmitFlag phv))
      (getUint (TargetConfig.read s.config.mcastGrp phv))
      (getInt (TargetConfig.read s.config.egressSpec phv))

/-- The ports of all copies that the ingress loop makes of a packet. -/
def ingressPorts (s : SimpleSwitch) (phv : DataPHV) : List ℤ :=
  s.mirrorPorts (getUint (TargetConfig.read s.config.cloneSpec phv)) ++
    s.forwardPorts (getInt (TargetConfig.read s.config.resubmitFlag phv))
      (getUint (TargetConfig.read s.config.mcastGrp phv))
      (getInt (TargetConfig.read s.config.egressSpec phv))

/-- Other queues with as many ports need the same. -/
theorem forwardSafe_withQueues {q : QueueingLogicRL (PacketInstance × ℤ)}
    (hlength : q.queuesInfo.length = s.egressBuffers.queuesInfo.length) (resubmitFlag : ℤ)
    (mgid : ℕ) (egressSpec : ℤ) : (s.withQueues q).ForwardSafe resubmitFlag mgid egressSpec ↔
      s.ForwardSafe resubmitFlag mgid egressSpec := by
  have hknows (port : ℤ) : (s.withQueues q).Knows port ↔ s.Knows port := by
    show 0 ≤ port ∧ port.toNat < q.queuesInfo.length ↔ _
    rw [hlength]
    rfl
  simp only [ForwardSafe, Replicates, hknows]
  exact Iff.rfl

/-- **The ingress loop after the pipeline.** -/
theorem ingressTail_iff (hsound : s.egressBuffers.Sound) (hloaded : s.config.Loaded layout)
    {packet : PacketInstance} (hlayout : packet.packet.phv.layout = layout)
    (packetInState : PacketBuffer) {src : ℕ → CopySource}
    (hsrc : ∀ i, (src i).phv.layout = layout) :
    (∃ s' learn, s.ingressTail packetInState packet src = some (s', learn) ∧
      s.egressBuffers.Delivered s'.egressBuffers (s.ingressPorts packet.packet.phv) ∧
      s.Resubmitted s' (getInt (TargetConfig.read s.config.resubmitFlag packet.packet.phv))) ↔
    s.IngressSafe packet.packet.phv := by
  have hvalue (f : ℕ × ℕ) (hf : f ∈ [s.config.egressSpec, s.config.cloneSpec,
      s.config.instanceType, s.config.egressPort, s.config.packetLength]) :
      packet.packet.phv.valueAt f = some (TargetConfig.read (some f) packet.packet.phv) :=
    TargetConfig.valueAt_eq_read (hlayout ▸ hloaded.required f hf)
  have hoptional (o : Option (ℕ × ℕ)) (ho : o ∈ [s.config.lfFieldList, s.config.mcastGrp,
      s.config.resubmitFlag, s.config.egressRid, s.config.bridgePort, s.config.recirculateFlag]) :
      TargetConfig.optionalValue o packet.packet.phv =
        some (TargetConfig.read o packet.packet.phv) :=
    TargetConfig.optionalValue_eq_read fun f hf => hlayout ▸ hloaded.optional o ho f hf
  rw [ingressTail, IngressSafe]
  simp only [hvalue s.config.egressSpec (by simp), hvalue s.config.cloneSpec (by simp),
    hoptional s.config.lfFieldList (by simp), hoptional s.config.mcastGrp (by simp),
    Option.bind_eq_bind, Option.bind_some]
  by_cases hmirrors : s.Mirrors (getUint (TargetConfig.read s.config.cloneSpec packet.packet.phv))
  · obtain ⟨q, phv', hclone, hdelivered, hlayout', hsame⟩ := ingressClone_some hsound hloaded hlayout
      (hsrc 0) packetInState hmirrors
    have hread : TargetConfig.read s.config.resubmitFlag phv' =
        TargetConfig.read s.config.resubmitFlag packet.packet.phv :=
      TargetConfig.read_of_ne hloaded.resubmitFlag_ne hsame
    rw [and_iff_right hmirrors, hclone]
    simp only [Option.bind_some]
    rw [← forwardSafe_withQueues hdelivered.length]
    constructor
    · rintro ⟨s', learn, heq, -⟩
      by_contra hfaulty
      rw [← hread] at hfaulty
      rw [forward_none (s := s.withQueues q) hdelivered.sound hloaded hlayout' packetInState packet
        hfaulty] at heq
      cases heq
    · intro hsafe
      rw [← hread] at hsafe
      obtain ⟨s', heq, hdelivered', hresubmitted⟩ := forward_some (s := s.withQueues q)
        hdelivered.sound hloaded hlayout' packetInState packet (fun i => hsrc (i + 1)) hsafe
      rw [heq]
      rw [show (s.withQueues q).config = s.config from rfl, hread] at hdelivered' hresubmitted
      exact ⟨s', _, rfl, hdelivered.trans hdelivered', hresubmitted⟩
  · rw [ingressClone_none packetInState hmirrors]
    constructor
    · rintro ⟨s', learn, heq, -⟩
      cases heq
    · rintro ⟨hmirrors', -⟩
      exact absurd hmirrors' hmirrors

/-! ## Egress -/

theorem setDequeued_known (hsound : s.egressBuffers.Sound) (hloaded : s.config.Loaded layout)
    {phv : DataPHV} (hlayout : phv.layout = layout) {port : ℕ}
    (hlt : port < s.egressBuffers.queuesInfo.length) (now : ℕ) :
    ∃ phv', s.setDequeued port phv now = some phv' ∧ phv'.layout = layout := by
  unfold setDequeued
  cases hqueueing : s.config.queueing with
  | none => exact ⟨_, rfl, hlayout⟩
  | some f =>
    have hfields := hloaded.queueing f hqueueing
    obtain ⟨enqTimestamp, hget⟩ := DataPHV.exists_valueAt phv (f := f.enqTimestamp)
      (hlayout ▸ hfields _ (by simp))
    obtain ⟨phv₁, hset₁, hlayout₁, -⟩ := DataPHV.exists_setAt phv (f := f.deqTimedelta)
      (hlayout ▸ hfields _ (by simp)) (now - enqTimestamp)
    obtain ⟨depth, hdepth⟩ := exists_size hsound hlt
    obtain ⟨phv₂, hset₂, hlayout₂, -⟩ := DataPHV.exists_setAt phv₁ (f := f.deqQdepth)
      ((hlayout₁.trans hlayout) ▸ hfields _ (by simp)) depth
    refine ⟨phv₂, ?_, hlayout₂.trans (hlayout₁.trans hlayout)⟩
    simp only [hget, hset₁, hdepth, Option.bind_eq_bind, Option.bind_some, hset₂]

/-- The egress loop reaches its pipeline. -/
theorem egressHead_some (hsound : s.egressBuffers.Sound) (hloaded : s.config.Loaded layout)
    {packet : PacketInstance} (hlayout : packet.packet.phv.layout = layout) {port : ℕ}
    (hlt : port < s.egressBuffers.queuesInfo.length) (now : ℕ) :
    ∃ head, s.egressHead port packet now = some head ∧ head.packet.phv.layout = layout := by
  obtain ⟨phv₀, hset₀, hlayout₀⟩ := setDequeued_known hsound hloaded hlayout hlt now
  obtain ⟨phv₁, hset₁, hlayout₁, -⟩ := DataPHV.exists_setAt phv₀ (f := s.config.egressPort)
    (hlayout₀ ▸ hloaded.required _ (by simp)) port
  obtain ⟨phv₂, hset₂, hlayout₂, -⟩ := DataPHV.exists_setAt phv₁ (f := s.config.egressSpec)
    ((hlayout₁.trans hlayout₀) ▸ hloaded.required _ (by simp)) 510
  obtain ⟨phv₃, hset₃, hlayout₃, -⟩ := DataPHV.exists_setAt phv₂
    (f := s.config.packetLength)
    ((hlayout₂.trans (hlayout₁.trans hlayout₀)) ▸ hloaded.required _ (by simp))
    packet.register0.toNat
  refine ⟨packet.setPHV phv₃, ?_, hlayout₃.trans (hlayout₂.trans (hlayout₁.trans hlayout₀))⟩
  rw [egressHead]
  simp only [hset₀, hset₁, hset₂, hset₃, Option.bind_eq_bind, Option.bind_some]
  rfl

/-- The packet after cloning: `clone_spec` has been cleared when there is a clone. -/
def cleared (s : SimpleSwitch) (packet : PacketInstance) (cloneSpec : ℕ) : PacketInstance :=
  if cloneSpec ≠ 0 ∧ 0 ≤ s.getMirroringMapping (cloneSpec &&& 0xFFFF : ℕ) then
    packet.setPHV ((packet.packet.phv.setAt s.config.cloneSpec 0).getD packet.packet.phv)
  else packet

/-- **Egress cloning** goes through when the session can be mirrored. -/
theorem egressClone_some (hsound : s.egressBuffers.Sound) (hloaded : s.config.Loaded layout)
    {packet : PacketInstance} (hlayout : packet.packet.phv.layout = layout) {src : CopySource}
    (hsrc : src.phv.layout = layout) {cloneSpec : ℕ} (hmirrors : s.Mirrors cloneSpec) :
    ∃ q, s.egressClone packet cloneSpec src = some (s.withQueues q, s.cleared packet cloneSpec) ∧
      s.egressBuffers.Delivered q (s.mirrorPorts cloneSpec) ∧
      (s.cleared packet cloneSpec).packet.phv.layout = layout ∧
      ∀ f ≠ s.config.cloneSpec,
        (s.cleared packet cloneSpec).packet.phv.valueAt f = packet.packet.phv.valueAt f := by
  rw [egressClone, mirrorPorts, cleared]
  by_cases hzero : cloneSpec = 0
  · rw [if_pos hzero, if_neg (fun h => h.1 hzero), if_neg (fun h => h.1 hzero)]
    exact ⟨s.egressBuffers, rfl, .refl hsound, hlayout, fun _ _ => rfl⟩
  · rw [if_neg hzero]
    by_cases hport : 0 ≤ s.getMirroringMapping (cloneSpec &&& 0xFFFF : ℕ)
    · obtain ⟨phv, hset, hlayout', hsame⟩ := DataPHV.exists_setAt packet.packet.phv
        (f := s.config.cloneSpec) (hlayout ▸ hloaded.required _ (by simp)) 0
      obtain ⟨hlist, hknown⟩ := hmirrors hzero hport
      have hphv : phv.layout = layout := hlayout'.trans hlayout
      have hcopy : (SwitchProgram.cloneWithPHV (packet.setPHV phv) src.phv
          src.register0).packet.phv.layout = layout :=
        (DataPHV.layout_copyHeaders (hphv.trans hsrc.symm)).trans hsrc
      obtain ⟨phvCopy, hcarry, hlayoutCopy⟩ := hloaded.carryFields hcopy hphv hlist 2
      obtain ⟨q, hq, hdelivered⟩ := enqueue_known hsound hloaded
        ((SwitchProgram.cloneWithPHV (packet.setPHV phv) src.phv src.register0).setPHV
          phvCopy) hlayoutCopy hknown src.now
      simp only [if_neg (not_lt.mpr hport), if_pos (And.intro hzero hport), hset, Option.bind_eq_bind,
        Option.bind_some, hcarry, hq, Option.getD_some]
      exact ⟨q, rfl, hdelivered, hphv, hsame⟩
    · simp only [if_pos (not_le.mp hport), if_neg (fun h : cloneSpec ≠ 0 ∧ _ => hport h.2)]
      exact ⟨s.egressBuffers, rfl, .refl hsound, hlayout, fun _ _ => trivial⟩

theorem egressClone_none {packet : PacketInstance} {src : CopySource} {cloneSpec : ℕ}
    (hmirrors : ¬ s.Mirrors cloneSpec) : s.egressClone packet cloneSpec src = none := by
  obtain ⟨hzero, hmirrors⟩ := Classical.not_imp.mp hmirrors
  obtain ⟨hport, hmirrors⟩ := Classical.not_imp.mp hmirrors
  rw [egressClone, if_neg hzero]
  simp only [Option.bind_eq_bind, if_neg (not_lt.mpr hport)]
  rw [Option.bind_eq_none_iff]
  intro phv _
  cases hlist : s.config.fieldList (cloneSpec >>> 16 : ℕ) with
  | none => rw [TargetConfig.carryFields_eq_none hlist, Option.bind_none]
  | some fieldList =>
    rw [Option.bind_eq_none_iff]
    intro phvCopy _
    rw [enqueue_unknown fun hknown => hmirrors ⟨by rw [hlist]; rfl, hknown⟩, Option.bind_none]

/-- A packet that is to be recirculated names a field list that exists. -/
def Recirculates (s : SimpleSwitch) (deparsed : DataPHV) : Prop :=
  getInt (TargetConfig.read s.config.recirculateFlag deparsed) ≠ 0 →
    (s.config.fieldList (getInt (TargetConfig.read s.config.recirculateFlag deparsed))).isSome

/-- **The end of the egress loop** goes through exactly when a packet that is recirculated names a
field list that exists. -/
theorem output_iff (hloaded : s.config.Loaded layout) {packet : PacketInstance}
    (hlayout : packet.packet.phv.layout = layout) (egressPort : ℤ) {src : CopySource}
    (hsrc : src.phv.layout = layout) : (∃ out, s.output packet egressPort src = some out) ↔
      s.Recirculates (s.config.deparse packet).packet.phv := by
  have hdeparsed := hloaded.deparse packet hlayout
  have hflag : ∀ f ∈ s.config.recirculateFlag, InLayout (s.config.deparse packet).packet.phv.layout f :=
    fun f hf => hdeparsed ▸ hloaded.optional _ (by simp) f hf
  rw [output, TargetConfig.flagged_eq hflag, Recirculates]
  simp only [Option.bind_eq_bind, Option.bind_some]
  by_cases hzero : getInt (TargetConfig.read s.config.recirculateFlag
      (s.config.deparse packet).packet.phv) = 0
  · rw [if_neg (not_not.mpr hzero)]
    exact iff_of_true ⟨_, rfl⟩ fun hne => absurd hzero hne
  · rw [if_pos hzero]
    obtain ⟨f, hf⟩ : ∃ f, s.config.recirculateFlag = some f := by
      refine Option.ne_none_iff_exists'.mp fun hnone => hzero ?_
      rw [hnone]
      rfl
    obtain ⟨phv, hset, hlayout', -⟩ := DataPHV.exists_setAt
      ((s.config.deparse packet).packet.phv) (hflag f hf) 0
    generalize getInt (TargetConfig.read s.config.recirculateFlag
      (s.config.deparse packet).packet.phv) = fieldListId at hzero ⊢
    rw [hf]
    simp only [Option.map_some, recirculate, Option.bind_eq_bind, hset, Option.bind_some]
    constructor
    · rintro ⟨out, heq⟩ -
      by_contra hlist
      rw [TargetConfig.carryFields_eq_none (Option.not_isSome_iff_eq_none.mp hlist)] at heq
      cases heq
    · intro hlist
      have hclone : (SwitchProgram.cloneNoPHV (s.config.deparse packet).packet.buffer src.phv
          src.register0).packet.phv.layout = layout := hsrc
      obtain ⟨phvCopy, hcarry, hlayoutCopy⟩ := hloaded.carryFields hclone (hlayout'.trans hdeparsed)
        (hlist hzero) 4
      obtain ⟨phvCopy', hset', -, -⟩ := DataPHV.exists_setAt phvCopy
        (f := s.config.packetLength) (hlayoutCopy ▸ hloaded.required _ (by simp))
        (SwitchProgram.cloneNoPHV (s.config.deparse packet).packet.buffer src.phv
          src.register0).packet.buffer.data.length
      simp only [hcarry, Option.bind_some, hset']
      exact ⟨_, rfl⟩

/-- What the egress loop needs from the packet that comes out of the pipeline. -/
def EgressSafe (s : SimpleSwitch) (packet : PacketInstance) : Prop :=
  s.Mirrors (getUint (TargetConfig.read s.config.cloneSpec packet.packet.phv)) ∧
    (getInt (TargetConfig.read s.config.egressSpec packet.packet.phv) ≠ 511 →
      s.Recirculates (s.config.deparse (s.cleared packet
        (getUint (TargetConfig.read s.config.cloneSpec packet.packet.phv)))).packet.phv)

/-- **The egress loop after the pipeline.** -/
theorem egressTail_iff (hsound : s.egressBuffers.Sound) (hloaded : s.config.Loaded layout)
    {packet : PacketInstance} (hlayout : packet.packet.phv.layout = layout) (port : ℤ)
    {src : ℕ → CopySource} (hsrc : ∀ i, (src i).phv.layout = layout) :
    (∃ s' out, s.egressTail packet port src = some (s', out) ∧
      s.egressBuffers.Delivered s'.egressBuffers
        (s.mirrorPorts (getUint (TargetConfig.read s.config.cloneSpec packet.packet.phv)))) ↔
    s.EgressSafe packet := by
  rw [egressTail, EgressSafe, TargetConfig.valueAt_eq_read (hlayout ▸ hloaded.required _ (by simp))]
  simp only [Option.bind_eq_bind, Option.bind_some]
  generalize getUint (TargetConfig.read s.config.cloneSpec packet.packet.phv) = cloneSpec
  by_cases hmirrors : s.Mirrors cloneSpec
  · obtain ⟨q, hclone, hdelivered, hlayout', hsame⟩ := egressClone_some hsound hloaded hlayout
      (hsrc 0) hmirrors
    have hread : TargetConfig.read s.config.egressSpec (s.cleared packet cloneSpec).packet.phv =
        TargetConfig.read s.config.egressSpec packet.packet.phv :=
      TargetConfig.read_of_ne (fun heq => hloaded.egressSpec_ne (Option.some.inj heq)) hsame
    have hvalue : (s.cleared packet cloneSpec).packet.phv.valueAt s.config.egressSpec =
        some (TargetConfig.read s.config.egressSpec (s.cleared packet cloneSpec).packet.phv) :=
      TargetConfig.valueAt_eq_read (hlayout' ▸ hloaded.required _ (by simp))
    rw [and_iff_right hmirrors, hclone]
    simp only [Option.bind_some]
    rw [show (s.withQueues q).config = s.config from rfl, hvalue, Option.bind_some, hread]
    by_cases hdrop : getInt (TargetConfig.read s.config.egressSpec packet.packet.phv) = 511
    · rw [if_pos hdrop]
      exact iff_of_true ⟨_, _, rfl, hdelivered⟩ fun hne => absurd hdrop hne
    · rw [if_neg hdrop]
      have houtput := output_iff (s := s.withQueues q) hloaded hlayout'
        (if getInt (TargetConfig.read s.config.egressSpec packet.packet.phv) ≠ 510 then
          getInt (TargetConfig.read s.config.egressSpec packet.packet.phv) else port) (hsrc 1)
      constructor
      · rintro ⟨s', out, heq, -⟩ -
        obtain ⟨out', hout, -⟩ := Option.bind_eq_some_iff.mp heq
        exact houtput.mp ⟨out', hout⟩
      · intro hrecirculates
        obtain ⟨out, hout⟩ := houtput.mpr (hrecirculates hdrop)
        rw [hout]
        exact ⟨_, _, rfl, hdelivered⟩
  · rw [egressClone_none hmirrors]
    constructor
    · rintro ⟨s', out, heq, -⟩
      cases heq
    · rintro ⟨hmirrors', -⟩
      exact absurd hmirrors' hmirrors

/-- Standard metadata in the order `egress_spec`, `clone_spec`, `instance_type`, `egress_port`,
`packet_length`. -/
def standardMetadata (egressSpec : ℤ) : PooledPHV where
  headers := [⟨[((⟨⟨9, [], false⟩, false, true, 0⟩ : DataField).set egressSpec),
    (⟨⟨32, [], false⟩, false, true, 0⟩ : DataField).set 0,
    (⟨⟨32, [], false⟩, false, true, 0⟩ : DataField).set 0,
    (⟨⟨9, [], false⟩, false, true, 0⟩ : DataField).set 0,
    (⟨⟨32, [], false⟩, false, true, 0⟩ : DataField).set 0], false, true, 15, none⟩]
  headerStacks := []
  reset := by
    intro h hh
    rw [List.mem_singleton.mp hh]

/-- A configuration without parser, pipelines and fields that are not required. -/
def plainConfig : TargetConfig where
  egressSpec := (0, 0)
  cloneSpec := (0, 1)
  instanceType := (0, 2)
  egressPort := (0, 3)
  packetLength := (0, 4)
  lfFieldList := none
  mcastGrp := none
  resubmitFlag := none
  egressRid := none
  bridgePort := none
  recirculateFlag := none
  queueing := none
  fieldList := fun _ => none
  parse := id
  ingressMau := id
  egressMau := id
  deparse := id

/-- A switch with 8 ports. -/
def plainSwitch : SimpleSwitch where
  config := plainConfig
  inputBuffer := { capacity := 1024 }
  egressBuffers := .create 8 4 64 0
  pre := {}
  mirroringMap := fun _ => none

theorem loaded_plainConfig : plainConfig.Loaded [5] where
  required f hf := by
    fin_cases hf <;> exact ⟨5, rfl, by decide⟩
  optional o ho f hf := by
    fin_cases ho <;> cases hf
  queueing q hq := by cases hq
  fieldLists id fieldList hfieldList := by cases hfieldList
  egressSpec_ne := by decide
  resubmitFlag_ne := by decide
  parse _ h := h
  ingressMau _ h := h
  egressMau _ h := h
  deparse _ h := h

/-- A packet for a port. -/
def packetTo (egressSpec : ℤ) : PacketInstance :=
  ⟨⟨(standardMetadata egressSpec).toDataPHV, .ofData 0 [], 0⟩, 0⟩

end SimpleSwitch

end Bm
