/-
# The length register

Register 0 of a packet instance holds the bytes of its valid headers and its payload as long as
the steps that do not maintain it change nothing: `add_header_fast`, `copy_header`, `push` and
`pop` do not write to it, the parser must not extract a header twice, and a clone gets a register
that has not been initialised.

* `headerBytes_of_parse`: what a parser takes from the data it adds to the headers;
* `call_right`: the primitives;
* `right_of_keepsLength`: all instances of a run.
-/
import Bmv2.PacketLength

namespace Bm

/-! ## The shape of the headers -/

/-- What decides on the bytes that a header takes. -/
def DataHeader.shape (h : DataHeader) : Bool × Bool × ℕ := (h.valid, h.metadata, h.nbytesPacket)

namespace DataHeader

theorem bytesInPacket_of_shape {h h' : DataHeader} (hshape : h'.shape = h.shape) :
    h'.bytesInPacket = h.bytesInPacket := by
  simp only [shape, Prod.mk.injEq] at hshape
  simp only [bytesInPacket, hshape]

theorem shape_of_fields (h : DataHeader) (fields : List DataField) :
    ({ h with fields } : DataHeader).shape = h.shape := rfl

theorem shape_markValid {h : DataHeader} (hvalid : h.valid = true) : h.markValid.shape = h.shape := by
  simp [shape, markValid, hvalid]

theorem shape_markInvalid {h : DataHeader} (hvalid : h.valid = false) :
    h.markInvalid.shape = h.shape := by
  simp [shape, markInvalid, hvalid]

theorem shape_takeValues {h g : DataHeader} (hvalid : g.valid = h.valid) :
    (h.takeValues g).shape = h.shape := by
  simp [shape, takeValues, copyFields, hvalid]

end DataHeader

namespace DataPHV

def shape (phv : DataPHV) : List (Bool × Bool × ℕ) := phv.headers.map DataHeader.shape

theorem headerBytes_of_shape {phv phv' : DataPHV} (h : phv'.shape = phv.shape) :
    phv'.headerBytes = phv.headerBytes := by
  have hmap (phv : DataPHV) : phv.headers.map DataHeader.bytesInPacket =
      phv.shape.map fun s => if s.1 && !s.2.1 then s.2.2 else 0 := by
    rw [shape, List.map_map]
    rfl
  rw [headerBytes, headerBytes, hmap, hmap, h]

theorem getHeader_eq_ok {phv : DataPHV} {header : ℕ} {h : DataHeader} :
    phv.getHeader header = .ok h ↔ phv.headers[header]? = some h := orFault_eq_ok

/-- A header is replaced. -/
theorem headerBytes_setHeader {phv : DataPHV} {header : ℕ} {h : DataHeader}
    (hget : phv.headers[header]? = some h) (h' : DataHeader) :
    (phv.setHeader header h').headerBytes + h.bytesInPacket =
      phv.headerBytes + h'.bytesInPacket := by
  obtain ⟨hlt, rfl⟩ := List.getElem?_eq_some_iff.mp hget
  have hlt' : header < (phv.headers.map DataHeader.bytesInPacket).length := by simpa using hlt
  have hself := List.sum_set (phv.headers.map DataHeader.bytesInPacket) header
    phv.headers[header].bytesInPacket
  have hset := List.sum_set (phv.headers.map DataHeader.bytesInPacket) header h'.bytesInPacket
  have hget := List.set_getElem_self hlt'
  rw [List.getElem_map] at hget
  rw [hget, if_pos hlt'] at hself
  rw [if_pos hlt'] at hset
  rw [headerBytes, headerBytes, setHeader, List.map_set]
  omega

theorem getElem?_shape (phv : DataPHV) (header : ℕ) :
    phv.shape[header]? = phv.headers[header]?.map DataHeader.shape := List.getElem?_map

theorem shape_setHeader {phv : DataPHV} {header : ℕ} {h' : DataHeader}
    (hshape : phv.shape[header]? = some h'.shape) : (phv.setHeader header h').shape = phv.shape := by
  obtain ⟨hlt, hget⟩ := List.getElem?_eq_some_iff.mp hshape
  rw [shape, setHeader, List.map_set, ← hget]
  exact List.set_getElem_self hlt

/-- A header is replaced by one of the same shape. -/
theorem shape_setHeader_of_header {phv : DataPHV} {header : ℕ} {h h' : DataHeader}
    (hget : phv.getHeader header = .ok h) (hshape : h'.shape = h.shape) :
    (phv.setHeader header h').shape = phv.shape := by
  apply shape_setHeader
  rw [getElem?_shape, getHeader_eq_ok.mp hget, Option.map_some, hshape]

theorem shape_setStack (phv : DataPHV) (stack : ℕ) (st : HeaderStack) :
    (phv.setStack stack st).shape = phv.shape := rfl

theorem shape_setField {phv phv' : DataPHV} {dst : ℕ × ℕ} {f : DataField}
    (h : phv.setField dst f = .ok phv') : phv'.shape = phv.shape := by
  obtain ⟨g, hg, h⟩ := bind_eq_ok.mp h
  cases h
  exact shape_setHeader_of_header hg rfl

theorem shape_setValue {phv phv' : DataPHV} {dst : ℕ × ℕ} {value : ℤ}
    (h : phv.setValue dst value = .ok phv') : phv'.shape = phv.shape := by
  obtain ⟨f, -, h⟩ := bind_eq_ok.mp h
  exact shape_setField h

theorem shape_copyFieldList {phv phv' src : DataPHV} {fieldList : List (ℕ × ℕ)}
    (h : phv.copyFieldList src fieldList = .ok phv') : phv'.shape = phv.shape := by
  refine foldlM_invariant (I := fun s : DataPHV => s.shape = phv.shape) ?_ rfl h
  intro s p s' hs hstep
  obtain ⟨f, -, hstep⟩ := bind_eq_ok.mp hstep
  exact (shape_setValue hstep).trans hs

theorem shape_resetMetadata (phv : DataPHV) : phv.resetMetadata.shape = phv.shape := by
  rw [shape, resetMetadata, List.map_map, shape]
  refine List.map_congr_left fun h _ => ?_
  show DataHeader.shape (if h.metadata then h.reset else h) = h.shape
  split <;> rfl

/-- The headers with these ids are all valid, or all invalid. -/
def AllValid (phv : DataPHV) (v : Bool) (ids : List ℕ) : Prop :=
  ∀ id ∈ ids, ∀ h, phv.headers[id]? = some h → h.valid = v

theorem AllValid.of_shape {phv phv' : DataPHV} {v : Bool} {ids : List ℕ} (h : phv.AllValid v ids)
    (hshape : phv'.shape = phv.shape) : phv'.AllValid v ids := by
  intro id hid g hg
  have hget := getElem?_shape phv' id
  rw [hg, hshape, getElem?_shape] at hget
  obtain ⟨g', hg', heq⟩ := Option.map_eq_some_iff.mp hget
  exact (congrArg Prod.fst heq).symm.trans (h id hid g' hg')

/-- Two headers that are both valid or both invalid exchange their values. -/
theorem shape_swapValues {phv phv' : DataPHV} {i j : ℕ} {v : Bool} {ids : List ℕ}
    (hvalid : phv.AllValid v ids) (hi : i ∈ ids) (hj : j ∈ ids)
    (h : phv.swapValues i j = .ok phv') : phv'.shape = phv.shape := by
  obtain ⟨h₁, hh₁, h⟩ := bind_eq_ok.mp h
  obtain ⟨h₂, hh₂, h⟩ := bind_eq_ok.mp h
  cases h
  have heq : h₂.valid = h₁.valid :=
    (hvalid j hj h₂ (getHeader_eq_ok.mp hh₂)).trans (hvalid i hi h₁ (getHeader_eq_ok.mp hh₁)).symm
  have hfirst := shape_setHeader_of_header hh₁ (DataHeader.shape_takeValues heq)
  refine (shape_setHeader ?_).trans hfirst
  rw [hfirst, getElem?_shape, getHeader_eq_ok.mp hh₂, DataHeader.shape_takeValues heq.symm]
  rfl

/-- The loop of `push_front` and of `pop_front`. -/
theorem shape_foldlM_swapPlaces {phv phv' : DataPHV} {v : Bool} {st : HeaderStack} {l : List ℕ}
    (f : ℕ → ℕ) (hvalid : phv.AllValid v st.headers)
    (h : l.foldlM (fun phv i => phv.swapPlaces st i (f i)) phv = .ok phv') :
    phv'.shape = phv.shape := by
  refine foldlM_invariant (I := fun s : DataPHV => s.shape = phv.shape) ?_ rfl h
  intro s i s' hs hstep
  obtain ⟨i₁, hi₁, hstep⟩ := bind_eq_ok.mp hstep
  obtain ⟨i₂, hi₂, hstep⟩ := bind_eq_ok.mp hstep
  have hmem₁ := List.mem_of_getElem? (orFault_eq_ok.mp hi₁)
  have hmem₂ := List.mem_of_getElem? (orFault_eq_ok.mp hi₂)
  exact (shape_swapValues (hvalid.of_shape hs) hmem₁ hmem₂ hstep).trans hs

/-- Headers are marked as what they are. -/
theorem shape_foldlM_modifyHeader {phv phv' : DataPHV} {v : Bool} {ids l : List ℕ}
    {f : DataHeader → DataHeader} (hf : ∀ h, h.valid = v → (f h).shape = h.shape)
    (hvalid : phv.AllValid v ids) (hl : ∀ id ∈ l, id ∈ ids)
    (h : l.foldlM (fun phv id => phv.modifyHeader id f) phv = .ok phv') :
    phv'.shape = phv.shape := by
  induction l generalizing phv with
  | nil =>
    cases h
    rfl
  | cons id l ih =>
    rw [List.foldlM_cons] at h
    obtain ⟨phv₁, hmodify, h⟩ := bind_eq_ok.mp h
    obtain ⟨g, hg, hmodify⟩ := bind_eq_ok.mp hmodify
    cases hmodify
    have hfirst := shape_setHeader_of_header hg
      (hf g (hvalid id (hl id (by simp)) g (getHeader_eq_ok.mp hg)))
    exact (ih (hvalid.of_shape hfirst) (fun id' hid' => hl id' (by simp [hid'])) h).trans hfirst

/-- Headers are pushed on a stack that is full of valid headers. -/
theorem shape_pushFront {phv phv' : DataPHV} {stack num : ℕ}
    (hvalid : num = 0 ∨ ∀ st, phv.headerStacks[stack]? = some st → phv.AllValid true st.headers)
    (h : phv.pushFront stack num = .ok phv') : phv'.shape = phv.shape := by
  obtain ⟨st, hst, h⟩ := bind_eq_ok.mp h
  split at h
  · cases h
    rfl
  rename_i hnum
  have hvalid := hvalid.resolve_left hnum st (orFault_eq_ok.mp hst)
  split at h
  · cases h
  obtain ⟨phv₁, hswap, h⟩ := bind_eq_ok.mp h
  obtain ⟨phv₂, hmark, h⟩ := bind_eq_ok.mp h
  cases h
  have hfirst := shape_foldlM_swapPlaces (fun i => i - num) hvalid hswap
  rw [shape_setStack, ← hfirst]
  exact shape_foldlM_modifyHeader (fun h => DataHeader.shape_markValid) (hvalid.of_shape hfirst)
    (fun id hid => List.mem_of_mem_take hid) hmark

/-- Headers are popped from a stack without valid headers. -/
theorem shape_popFront {phv phv' : DataPHV} {stack num : ℕ}
    (hvalid : num = 0 ∨ ∀ st, phv.headerStacks[stack]? = some st →
      st.next = 0 ∨ phv.AllValid false st.headers)
    (h : phv.popFront stack num = .ok phv') : phv'.shape = phv.shape := by
  obtain ⟨st, hst, h⟩ := bind_eq_ok.mp h
  split at h
  · cases h
    rfl
  rename_i hnum
  obtain ⟨phv₁, hswap, h⟩ := bind_eq_ok.mp h
  obtain ⟨phv₂, hmark, h⟩ := bind_eq_ok.mp h
  cases h
  rcases hvalid.resolve_left hnum st (orFault_eq_ok.mp hst) with hnext | hvalid
  · rw [hnext] at hswap hmark
    simp at hswap hmark
    cases hswap
    cases hmark
    rfl
  · have hfirst := shape_foldlM_swapPlaces (fun i => i + num) hvalid hswap
    rw [shape_setStack, ← hfirst]
    exact shape_foldlM_modifyHeader (fun h => DataHeader.shape_markInvalid) (hvalid.of_shape hfirst)
      (fun id hid => List.mem_of_mem_drop (List.mem_of_mem_take hid)) hmark

end DataPHV

/-! ## The parser -/

namespace Parser

variable (p : Parser) (data : List Byte)

/-- The header is neither valid yet nor metadata. -/
def Unextracted (phv : DataPHV) (header : ℕ) : Prop :=
  ∀ h, phv.headers[header]? = some h → h.valid = false ∧ h.metadata = false

/-- A header is extracted only once, and metadata never. -/
def OpOnce (s : ParseCtx) : ParserOp → Prop
  | .extract header => Unextracted s.phv header
  | .extractStack stack => ∀ st header, s.phv.headerStacks[stack]? = some st →
      st.getNext = .ok header → Unextracted s.phv header
  | _ => True

/-- The same for the operations of a state. -/
def TurnOnce : ParseCtx × Option ℕ → Prop
  | (_, none) => True
  | (s, some i) => ∀ st, p.states[i]? = some st → StepsMeet (p.runOp data) OpOnce s st.ops

/-- The same for all states that the parser goes through. -/
def ParsesOnce (n : ℕ) (pkt : Packet) : Prop :=
  ∀ i, p.initState = some i →
    TurnsMeet (p.turn pkt.buffer.data) (p.TurnOnce pkt.buffer.data) n (⟨pkt.phv, 0⟩, some i)

variable {p} {data}

theorem tryExtract_flags {h h' : DataHeader} {vlExpr : List DataField → ℤ} {data : List Byte}
    (hextract : h.tryExtract vlExpr data = .ok h') : h'.valid = true ∧ h'.metadata = h.metadata := by
  unfold DataHeader.tryExtract at hextract
  split at hextract
  · obtain ⟨fields, -, hextract⟩ := bind_eq_ok.mp hextract
    cases hextract
    exact ⟨rfl, rfl⟩
  · obtain ⟨⟨fields, nbits⟩, -, hextract⟩ := bind_eq_ok.mp hextract
    dsimp only at hextract
    split at hextract
    · cases hextract
      exact ⟨rfl, rfl⟩
    · cases hextract

/-- A header that is extracted adds the bytes that are taken. -/
theorem headerBytes_extract {s : ParseCtx} {header : ℕ} {h : DataHeader}
    (hfresh : Unextracted s.phv header) (hextract : p.extractHeader data s header = .ok h) :
    (s.phv.setHeader header h).headerBytes = s.phv.headerBytes + h.nbytesPacket := by
  obtain ⟨g, hg, hextract⟩ := bind_eq_ok.mp hextract
  rw [DataPHV.getHeader_eq_ok] at hg
  obtain ⟨hvalid, hmetadata⟩ := hfresh g hg
  obtain ⟨hvalid', hmetadata'⟩ := tryExtract_flags hextract
  have hbytes := DataPHV.headerBytes_setHeader hg h
  have hbefore : g.bytesInPacket = 0 := by simp [DataHeader.bytesInPacket, hvalid]
  have hafter : h.bytesInPacket = h.nbytesPacket := by
    simp [DataHeader.bytesInPacket, hvalid', hmetadata', hmetadata]
  omega

/-- The bytes of the headers grow with the bytes that are parsed. -/
theorem headerBytes_runOp {s s' : ParseCtx} {op : ParserOp} (hop : OpOnce s op)
    (h : p.runOp data s op = .ok s') :
    s'.phv.headerBytes + s.bytesParsed = s.phv.headerBytes + s'.bytesParsed := by
  cases op with
  | extract header =>
    obtain ⟨h', hextract, h⟩ := bind_eq_ok.mp h
    cases h
    show (s.phv.setHeader header h').headerBytes + s.bytesParsed =
      s.phv.headerBytes + (s.bytesParsed + h'.nbytesPacket)
    rw [headerBytes_extract hop hextract]
    omega
  | extractStack stack =>
    obtain ⟨st, hst, h⟩ := bind_eq_ok.mp h
    obtain ⟨header, hheader, h⟩ := bind_eq_ok.mp h
    obtain ⟨h', hextract, h⟩ := bind_eq_ok.mp h
    cases h
    have hfresh := hop st header (orFault_eq_ok.mp hst) hheader
    show (s.phv.setHeader header h').headerBytes + s.bytesParsed =
      s.phv.headerBytes + (s.bytesParsed + h'.nbytesPacket)
    rw [headerBytes_extract hfresh hextract]
    omega
  | setField dst src =>
    obtain ⟨f, -, h⟩ := bind_eq_ok.mp h
    obtain ⟨g, -, h⟩ := bind_eq_ok.mp h
    obtain ⟨phv, hset, h⟩ := bind_eq_ok.mp h
    cases h
    rw [DataPHV.headerBytes_of_shape (DataPHV.shape_setField hset)]
  | setData dst src =>
    obtain ⟨f, -, h⟩ := bind_eq_ok.mp h
    obtain ⟨phv, hset, h⟩ := bind_eq_ok.mp h
    cases h
    rw [DataPHV.headerBytes_of_shape (DataPHV.shape_setField hset)]
  | setLookAhead dst src =>
    obtain ⟨f, -, h⟩ := bind_eq_ok.mp h
    dsimp only at h
    split at h
    · obtain ⟨g, -, h⟩ := bind_eq_ok.mp h
      obtain ⟨phv, hset, h⟩ := bind_eq_ok.mp h
      cases h
      rw [DataPHV.headerBytes_of_shape (DataPHV.shape_setField hset)]
    · obtain ⟨bytes, -, h⟩ := bind_eq_ok.mp h
      obtain ⟨phv, hset, h⟩ := bind_eq_ok.mp h
      cases h
      rw [DataPHV.headerBytes_of_shape (DataPHV.shape_setField hset)]
  | setExpression dst eval =>
    obtain ⟨f, -, h⟩ := bind_eq_ok.mp h
    obtain ⟨phv, hset, h⟩ := bind_eq_ok.mp h
    cases h
    rw [DataPHV.headerBytes_of_shape (DataPHV.shape_setField hset)]

theorem headerBytes_turn {c c' : ParseCtx × Option ℕ} (hc : p.TurnOnce data c)
    (h : p.turn data c = .ok c') :
    c'.1.phv.headerBytes + c.1.bytesParsed = c.1.phv.headerBytes + c'.1.bytesParsed := by
  obtain ⟨s, next⟩ := c
  cases next with
  | none =>
    cases h
    rfl
  | some i =>
    obtain ⟨st, hst, h⟩ := bind_eq_ok.mp h
    obtain ⟨s', hops, h⟩ := bind_eq_ok.mp h
    have hbytes := foldlM_invariant_of_meets
      (I := fun t : ParseCtx =>
        t.phv.headerBytes + s.bytesParsed = s.phv.headerBytes + t.bytesParsed)
      (fun t op t' ht hop hstep => by
        have hrun := headerBytes_runOp hop hstep
        omega) rfl (hc st (orFault_eq_ok.mp hst)) hops
    split at h
    · cases h
      exact hbytes
    · obtain ⟨key, -, h⟩ := bind_eq_ok.mp h
      obtain ⟨next, -, h⟩ := bind_eq_ok.mp h
      cases h
      exact hbytes

/-- **Parsing keeps the length.**  What the parser takes from the data is in the valid headers. -/
theorem headerBytes_of_parse {n : ℕ} {pkt pkt' : Packet} (honce : p.ParsesOnce n pkt)
    (h : p.parse n pkt = .ok (some pkt')) :
    pkt'.phv.headerBytes + pkt'.buffer.data.length =
      pkt.phv.headerBytes + pkt.buffer.data.length := by
  unfold Parser.parse at h
  split at h
  · cases h
    rfl
  rename_i i hinit
  obtain ⟨⟨s, next⟩, hrun, h⟩ := bind_eq_ok.mp h
  have hbytes := iterM_invariant_of_meets
    (I := fun c : ParseCtx × Option ℕ => c.1.phv.headerBytes = pkt.phv.headerBytes + c.1.bytesParsed)
    (fun c c' hc honce hstep => by
      have hturn := headerBytes_turn honce hstep
      omega) rfl (honce i hinit) hrun
  obtain rfl | ⟨j, rfl⟩ : next = none ∨ ∃ j, next = some j := by cases next <;> simp
  case inr => cases h
  obtain ⟨pkt₁, hremove, h⟩ := bind_eq_ok.mp h
  cases h
  unfold Packet.remove at hremove
  split at hremove
  · cases hremove
  obtain ⟨buffer, hpop, hremove⟩ := bind_eq_ok.mp hremove
  cases hremove
  rw [orFault_eq_ok] at hpop
  unfold PacketBuffer.pop at hpop
  split at hpop
  · rename_i hle
    cases hpop
    simp only at hbytes hle ⊢
    rw [PacketBuffer.length_data] at hle ⊢
    rw [PacketBuffer.length_data]
    dsimp only
    omega
  · cases hpop

end Parser

/-! ## Primitives -/

/-- The primitive changes no validity without the register. -/
def HeaderPrimitive.KeepsBytes (phv : DataPHV) : HeaderPrimitive → Prop
  | .addHeader _ => True
  | .addHeaderFast hdr => ∀ h, phv.headers[hdr]? = some h → h.isValid ∨ h.nbytesPacket = 0
  | .removeHeader hdr => ∀ h, phv.headers[hdr]? = some h → h.metadata = false ∨ h.nbytesPacket = 0
  | .copyHeader dst src => ∀ h g, phv.headers[dst]? = some h → phv.headers[src]? = some g →
      h.metadata ∨ h.valid = g.isValid ∨ h.nbytesPacket = 0
  | .push stack num => num = 0 ∨
      ∀ st, phv.headerStacks[stack]? = some st → phv.AllValid true st.headers
  | .pop stack num => num = 0 ∨ ∀ st, phv.headerStacks[stack]? = some st →
      st.next = 0 ∨ phv.AllValid false st.headers

namespace PacketInstance

/-- The size of the packet that the deparser would emit. -/
def size (p : PacketInstance) : ℕ := p.packet.phv.headerBytes + p.packet.buffer.data.length

/-- Register 0 holds the size. -/
def Right (p : PacketInstance) : Prop := p.register0 = UInt64.ofNat p.size

variable {p p' : PacketInstance} {typeId : ℕ → ℕ}

/-- The headers of an instance keep their bytes. -/
theorem Right.setPHV (h : p.Right) {phv : DataPHV}
    (hbytes : phv.headerBytes = p.packet.phv.headerBytes) : (p.setPHV phv).Right := by
  rw [Right, size]
  show p.register0 = UInt64.ofNat (phv.headerBytes + p.packet.buffer.data.length)
  rw [hbytes]
  exact h

/-- A header is replaced by one that takes as many bytes. -/
theorem Right.setHeader (h : p.Right) {hdr : ℕ} {g g' : DataHeader}
    (hget : p.packet.phv.headers[hdr]? = some g) (hbytes : g'.bytesInPacket = g.bytesInPacket) :
    (p.setPHV (p.packet.phv.setHeader hdr g')).Right := by
  apply h.setPHV
  have hset := DataPHV.headerBytes_setHeader hget g'
  omega

theorem bytesInPacket_of_isValid {h h' : DataHeader} (hsame : h'.nbytesPacket = h.nbytesPacket)
    (hmetadata : h'.metadata = h.metadata)
    (hvalid : h.metadata = true ∨ h'.valid = h.valid ∨ h.nbytesPacket = 0) :
    h'.bytesInPacket = h.bytesInPacket := by
  rcases hvalid with hvalid | hvalid | hvalid <;>
    simp [DataHeader.bytesInPacket, hsame, hmetadata, hvalid]

/-- **Primitives keep the register right.** -/
theorem call_right {primitive : HeaderPrimitive} (h : p.Right)
    (hkeeps : primitive.KeepsBytes p.packet.phv) (hcall : p.call typeId primitive = .ok p') :
    p'.Right := by
  cases primitive with
  | addHeader hdr =>
    obtain ⟨g, hg, hcall⟩ := bind_eq_ok.mp hcall
    rw [DataPHV.getHeader_eq_ok] at hg
    split at hcall
    · rename_i hinvalid
      cases hcall
      have hset := DataPHV.headerBytes_setHeader hg g.reset.markValid
      have hbefore : g.bytesInPacket = 0 := by
        simp [DataHeader.isValid] at hinvalid
        simp [DataHeader.bytesInPacket, hinvalid]
      have hafter : g.reset.markValid.bytesInPacket = g.nbytesPacket := by
        simp [DataHeader.isValid] at hinvalid
        simp [DataHeader.bytesInPacket, DataHeader.reset, DataHeader.markValid, hinvalid]
      have hbytes : (p.packet.phv.setHeader hdr g.reset.markValid).headerBytes =
          p.packet.phv.headerBytes + g.nbytesPacket := by omega
      show p.register0 + UInt64.ofNat g.nbytesPacket = UInt64.ofNat
        ((p.packet.phv.setHeader hdr g.reset.markValid).headerBytes + p.packet.buffer.data.length)
      rw [hbytes, h, size, ← UInt64.ofNat_add, Nat.add_right_comm]
    · cases hcall
      exact h
  | addHeaderFast hdr =>
    obtain ⟨phv, hmodify, hcall⟩ := bind_eq_ok.mp hcall
    obtain ⟨g, hg, hmodify⟩ := bind_eq_ok.mp hmodify
    cases hmodify
    cases hcall
    rw [DataPHV.getHeader_eq_ok] at hg
    refine h.setHeader hg (bytesInPacket_of_isValid rfl rfl ?_)
    rcases hkeeps g hg with hvalid | hzero
    · rcases Bool.or_eq_true_iff.mp hvalid with hmetadata | hvalid
      · exact .inl hmetadata
      · exact .inr (.inl hvalid.symm)
    · exact .inr (.inr hzero)
  | removeHeader hdr =>
    obtain ⟨g, hg, hcall⟩ := bind_eq_ok.mp hcall
    rw [DataPHV.getHeader_eq_ok] at hg
    split at hcall
    · rename_i hvalid
      cases hcall
      have hset := DataPHV.headerBytes_setHeader hg g.markInvalid
      have hafter : g.markInvalid.bytesInPacket = 0 := by
        simp [DataHeader.bytesInPacket, DataHeader.markInvalid]
      have hbefore : g.bytesInPacket = g.nbytesPacket := by
        rcases hkeeps g hg with hmetadata | hzero
        · simp [DataHeader.isValid, hmetadata] at hvalid
          simp [DataHeader.bytesInPacket, hmetadata, hvalid]
        · simp [DataHeader.bytesInPacket, hzero]
      have hbytes : p.packet.phv.headerBytes =
          (p.packet.phv.setHeader hdr g.markInvalid).headerBytes + g.nbytesPacket := by omega
      show p.register0 - UInt64.ofNat g.nbytesPacket = UInt64.ofNat
        ((p.packet.phv.setHeader hdr g.markInvalid).headerBytes + p.packet.buffer.data.length)
      rw [h, size, hbytes, Nat.add_right_comm, UInt64.ofNat_add, UInt64.add_sub_cancel]
    · cases hcall
      exact h
  | copyHeader dst src =>
    obtain ⟨g, hg, hcall⟩ := bind_eq_ok.mp hcall
    obtain ⟨g', hg', hcall⟩ := bind_eq_ok.mp hcall
    rw [DataPHV.getHeader_eq_ok] at hg hg'
    have hsame := hkeeps g g' hg hg'
    split at hcall
    · rename_i hinvalid
      cases hcall
      refine h.setHeader hg (bytesInPacket_of_isValid rfl rfl ?_)
      rw [Bool.not_eq_true'] at hinvalid
      rwa [hinvalid, eq_comm (a := g.valid)] at hsame
    · rename_i hvalid
      split at hcall
      · cases hcall
      · cases hcall
        refine h.setHeader hg (bytesInPacket_of_isValid rfl rfl ?_)
        rw [Bool.not_eq_true', Bool.not_eq_false] at hvalid
        rwa [hvalid, eq_comm (a := g.valid)] at hsame
  | push stack num =>
    obtain ⟨phv, hpush, hcall⟩ := bind_eq_ok.mp hcall
    cases hcall
    exact h.setPHV (DataPHV.headerBytes_of_shape (DataPHV.shape_pushFront hkeeps hpush))
  | pop stack num =>
    obtain ⟨phv, hpop, hcall⟩ := bind_eq_ok.mp hcall
    cases hcall
    exact h.setPHV (DataPHV.headerBytes_of_shape (DataPHV.shape_popFront hkeeps hpop))

end PacketInstance

/-! ## The deparser -/

/-- The bytes of the header with this id. -/
def DataPHV.bytesOf (phv : DataPHV) (id : ℕ) : ℕ :=
  (phv.headers[id]?.map DataHeader.bytesInPacket).getD 0

theorem Deparser.headersSize_eq_sum {phv : DataPHV} {ids : List ℕ}
    (h : ∀ id ∈ ids, ∃ g, phv.headers[id]? = some g ∧ g.metadata = false) :
    headersSize phv ids = some (ids.map phv.bytesOf).sum := by
  induction ids with
  | nil => rfl
  | cons id ids ih =>
    obtain ⟨g, hg, hmetadata⟩ := h id (by simp)
    rw [headersSize, hg, ih fun id' hid' => h id' (by simp [hid'])]
    rw [List.map_cons, List.sum_cons, DataPHV.bytesOf, hg]
    cases hvalid : g.valid <;>
      simp [DataHeader.isValid, DataHeader.bytesInPacket, hmetadata, hvalid]

/-- The metadata adds no bytes. -/
theorem DataPHV.sum_bytesOf (phv : DataPHV) :
    (((List.range phv.headers.length).filter fun id =>
      !(phv.headers[id]?.any fun h => h.metadata)).map phv.bytesOf).sum = phv.headerBytes := by
  have hfilter (ids : List ℕ) :
      ((ids.filter fun id => !(phv.headers[id]?.any fun h => h.metadata)).map phv.bytesOf).sum =
        (ids.map phv.bytesOf).sum := by
    induction ids with
    | nil => rfl
    | cons id ids ih =>
      rw [List.filter_cons]
      split
      · simp only [List.map_cons, List.sum_cons, ih]
      · rename_i hmetadata
        have hzero : phv.bytesOf id = 0 := by
          cases hget : phv.headers[id]? with
          | none => simp [hget] at hmetadata
          | some g =>
            have hg : g.metadata = true := by simpa [hget] using hmetadata
            simp [bytesOf, hget, DataHeader.bytesInPacket, hg]
        rw [ih, List.map_cons, List.sum_cons, hzero, Nat.zero_add]
  have hmap : (List.range phv.headers.length).map phv.bytesOf =
      phv.headers.map DataHeader.bytesInPacket := by
    apply List.ext_getElem
    · simp
    · intro id hid hid'
      have hlt : id < phv.headers.length := by simpa using hid
      simp [bytesOf, List.getElem?_eq_getElem hlt]
  rw [hfilter, hmap, headerBytes]

/-- A deparser that has each header but the metadata makes room for the bytes of the valid
headers. -/
theorem Deparser.headersSize_of_perm {phv : DataPHV} {ids : List ℕ}
    (hperm : ids.Perm ((List.range phv.headers.length).filter fun id =>
      !(phv.headers[id]?.any fun h => h.metadata))) :
    headersSize phv ids = some phv.headerBytes := by
  have hids (id : ℕ) (hid : id ∈ ids) : ∃ g, phv.headers[id]? = some g ∧ g.metadata = false := by
    obtain ⟨hlt, hmetadata⟩ := List.mem_filter.mp (hperm.subset hid)
    have hget := List.getElem?_eq_getElem (List.mem_range.mp hlt)
    rw [hget] at hmetadata
    exact ⟨_, hget, by simpa using hmetadata⟩
  rw [headersSize_eq_sum hids, (hperm.map _).sum_eq, DataPHV.sum_bytesOf]

/-! ## Instances -/

theorem PacketBuffer.data_ofData (room : ℕ) (data : List Byte) :
    (PacketBuffer.ofData room data).data = data := by
  unfold PacketBuffer.ofData PacketBuffer.data
  exact List.drop_left' List.length_replicate

theorem PacketBuffer.data_clone (b : PacketBuffer) : b.clone.data = b.data := data_ofData _ _

theorem PooledPHV.headerBytes (phv : PooledPHV) : phv.toDataPHV.headerBytes = 0 := by
  rw [DataPHV.headerBytes, List.sum_eq_zero_iff]
  intro n hn
  obtain ⟨h, hh, rfl⟩ := List.mem_map.mp hn
  simp [DataHeader.bytesInPacket, phv.reset h hh]

/-- The headers of the new PHV have the lengths of the valid headers of the packet. -/
def DataPHV.SameLengths (phv src : DataPHV) : Prop :=
  List.Forall₂ (fun h g => g.valid = true → h.nbytesPacket = g.nbytesPacket) phv.headers src.headers

theorem DataPHV.SameLengths.of_shape {phv src src' : DataPHV} (h : phv.SameLengths src)
    (hshape : src'.shape = src.shape) : phv.SameLengths src' := by
  have hiff (src : DataPHV) : phv.SameLengths src ↔
      List.Forall₂ (fun (h : DataHeader) (g : Bool × Bool × ℕ) => g.1 = true → h.nbytesPacket = g.2.2)
        phv.headers src.shape := by
    rw [shape, List.forall₂_map_right_iff]
    rfl
  rw [hiff, hshape, ← hiff]
  exact h

theorem DataPHV.headerBytes_copyHeaders {phv src : DataPHV} (h : phv.SameLengths src) :
    (phv.copyHeaders src).headerBytes = src.headerBytes := by
  unfold SameLengths at h
  unfold headerBytes copyHeaders
  generalize phv.headers = hs at h
  generalize src.headers = gs at h
  dsimp only
  induction h with
  | nil => rfl
  | @cons h g hs gs hlength _ ih =>
    rw [List.zipWith_cons_cons, List.map_cons, List.map_cons, List.sum_cons, List.sum_cons, ih]
    congr 1
    cases hvalid : g.valid with
    | false => split <;> simp [DataHeader.bytesInPacket, DataHeader.copyFields, hvalid]
    | true =>
      rw [if_pos (by rw [Bool.true_or])]
      simp [DataHeader.bytesInPacket, DataHeader.copyFields, hvalid, hlength hvalid]

namespace SwitchProgram

variable (prog : SwitchProgram)

/-- The steps that keep the register right: no header is extracted twice, a primitive changes no
validity without the register, a replica gets headers of the lengths that it copies, and the
register of a clone, which is not initialised, happens to hold its size. -/
def KeepsLength (s : Instances) : Op → Prop
  | .ingress i n => ∀ p, s[i]? = some (p, .inputBuffer) → prog.parser.ParsesOnce n p.packet
  | .call i primitive => ∀ p stage, s[i]? = some (p, stage) → primitive.KeepsBytes p.packet.phv
  | .ingressClone i n phv register0 fieldListId => ∀ p packetInState,
      s[i]? = some (p, .ingress packetInState) →
        register0 = UInt64.ofNat packetInState.data.length ∧
        ∀ copy, prog.keepFields (cloneNoPHV packetInState phv register0) p.packet.phv fieldListId 1 =
          .ok copy → prog.parser.ParsesOnce n copy.packet
  | .resubmit i _ register0 _ => ∀ p packetInState, s[i]? = some (p, .ingress packetInState) →
      register0 = UInt64.ofNat packetInState.data.length
  | .replicate i _ _ phv => ∀ p stage, s[i]? = some (p, stage) →
      phv.toDataPHV.SameLengths p.packet.phv
  | .egressClone i phv register0 _ => ∀ p stage, s[i]? = some (p, stage) →
      register0 = UInt64.ofNat (cloneWithPHV p phv register0).size
  | _ => True

variable {prog} {p p' copy : PacketInstance} {s s' : Instances}

theorem size_cloneNoPHV (buffer : PacketBuffer) (phv : PooledPHV) (register0 : UInt64) :
    (cloneNoPHV buffer phv register0).size = buffer.data.length := by
  show phv.toDataPHV.headerBytes + buffer.clone.data.length = _
  rw [phv.headerBytes, PacketBuffer.data_clone, Nat.zero_add]

theorem keepFields_eq {src : DataPHV} {fieldListId : ℕ} {copyType : ℤ}
    (h : prog.keepFields p src fieldListId copyType = .ok p') :
    ∃ phv, p' = p.setPHV phv ∧ phv.headerBytes = p.packet.phv.headerBytes := by
  obtain ⟨fieldList, -, h⟩ := bind_eq_ok.mp h
  obtain ⟨phv, hcopy, h⟩ := bind_eq_ok.mp h
  obtain ⟨phv', hset, h⟩ := bind_eq_ok.mp h
  cases h
  have hshape := ((DataPHV.shape_setValue hset).trans (DataPHV.shape_copyFieldList hcopy)).trans
    (DataPHV.shape_resetMetadata p.packet.phv)
  exact ⟨phv', rfl, DataPHV.headerBytes_of_shape hshape⟩

theorem right_keepFields {src : DataPHV} {fieldListId : ℕ} {copyType : ℤ} (hright : p.Right)
    (h : prog.keepFields p src fieldListId copyType = .ok p') : p'.Right := by
  obtain ⟨phv, rfl, hbytes⟩ := keepFields_eq h
  exact hright.setPHV hbytes

theorem right_parse {n : ℕ} (hright : p.Right) (honce : prog.parser.ParsesOnce n p.packet)
    (h : prog.parse p n = .ok p') : p'.Right := by
  obtain ⟨packet, hparse, h⟩ := bind_eq_ok.mp h
  obtain ⟨packet', hsome, h⟩ := bind_eq_ok.mp h
  cases h
  rw [orFault_eq_ok] at hsome
  subst hsome
  have hbytes := Parser.headerBytes_of_parse honce hparse
  rw [PacketInstance.Right, PacketInstance.size]
  show p.register0 = UInt64.ofNat (packet'.phv.headerBytes + packet'.buffer.data.length)
  rw [hbytes]
  exact hright

/-- All registers are right. -/
def AllRight (s : Instances) : Prop := ∀ q ∈ s, q.1.Right

theorem AllRight.get (h : AllRight s) {i : ℕ} {stage : PacketStage}
    (hget : orFault ParseFault.id s[i]? = .ok (p, stage)) : p.Right :=
  h (p, stage) (List.mem_of_getElem? (orFault_eq_ok.mp hget))

theorem AllRight.set (h : AllRight s) {i : ℕ} {stage : PacketStage} (hp : p.Right) :
    AllRight (s.set i (p, stage)) := by
  intro q hq
  rcases List.mem_or_eq_of_mem_set hq with hq | rfl
  · exact h q hq
  · exact hp

theorem AllRight.append (h : AllRight s) {stage : PacketStage} (hp : p.Right) :
    AllRight (s ++ [(p, stage)]) := by
  intro q hq
  rcases List.mem_append.mp hq with hq | hq
  · exact h q hq
  · rw [List.mem_singleton.mp hq]
    exact hp

/-- **Each step keeps all registers right.** -/
theorem AllRight.exec (h : AllRight s) {op : Op} (hkeeps : prog.KeepsLength s op)
    (hexec : prog.exec s op = .ok s') : AllRight s' := by
  cases op with
  | receive data phv =>
    obtain ⟨phv₁, hlength, hexec⟩ := bind_eq_ok.mp hexec
    obtain ⟨phv₂, htype, hexec⟩ := bind_eq_ok.mp hexec
    cases hexec
    have hshape := ((DataPHV.shape_setValue htype).trans (DataPHV.shape_setValue hlength)).trans
      (DataPHV.shape_resetMetadata phv.toDataPHV)
    apply h.append
    show UInt64.ofNat data.length =
      UInt64.ofNat (phv₂.headerBytes + (PacketBuffer.ofData 512 data).data.length)
    rw [DataPHV.headerBytes_of_shape hshape, phv.headerBytes, PacketBuffer.data_ofData, Nat.zero_add]
  | ingress i n =>
    obtain ⟨⟨p, stage⟩, hget, hexec⟩ := bind_eq_ok.mp hexec
    cases stage <;> try cases hexec
    obtain ⟨p', hparse, hexec⟩ := bind_eq_ok.mp hexec
    cases hexec
    exact h.set (right_parse (h.get hget) (hkeeps p (orFault_eq_ok.mp hget)) hparse)
  | call i primitive =>
    obtain ⟨⟨p, stage⟩, hget, hexec⟩ := bind_eq_ok.mp hexec
    have hbytes := hkeeps p stage (orFault_eq_ok.mp hget)
    cases stage <;> try cases hexec
    all_goals
      obtain ⟨p', hcall, hexec⟩ := bind_eq_ok.mp hexec
      cases hexec
      exact h.set (PacketInstance.call_right (h.get hget) hbytes hcall)
  | ingressClone i n phv register0 fieldListId =>
    obtain ⟨⟨p, stage⟩, hget, hexec⟩ := bind_eq_ok.mp hexec
    cases stage <;> try cases hexec
    rename_i packetInState
    obtain ⟨copy, hcopy, hexec⟩ := bind_eq_ok.mp hexec
    obtain ⟨copy', hparse, hexec⟩ := bind_eq_ok.mp hexec
    cases hexec
    obtain ⟨hregister, honce⟩ := hkeeps p packetInState (orFault_eq_ok.mp hget)
    have hright : (cloneNoPHV packetInState phv register0).Right := by
      rw [PacketInstance.Right, size_cloneNoPHV]
      exact hregister
    exact h.append (right_parse (right_keepFields hright hcopy) (honce copy hcopy) hparse)
  | resubmit i phv register0 fieldListId =>
    obtain ⟨⟨p, stage⟩, hget, hexec⟩ := bind_eq_ok.mp hexec
    cases stage <;> try cases hexec
    rename_i packetInState
    obtain ⟨copy, hcopy, hexec⟩ := bind_eq_ok.mp hexec
    cases hexec
    have hright : (cloneNoPHV packetInState phv register0).Right := by
      rw [PacketInstance.Right, size_cloneNoPHV]
      exact hkeeps p packetInState (orFault_eq_ok.mp hget)
    exact h.set (right_keepFields hright hcopy)
  | replicate i egressPort rid phv =>
    obtain ⟨⟨p, stage⟩, hget, hexec⟩ := bind_eq_ok.mp hexec
    have hlengths := hkeeps p stage (orFault_eq_ok.mp hget)
    cases stage <;> try cases hexec
    obtain ⟨instanceType, -, hexec⟩ := bind_eq_ok.mp hexec
    obtain ⟨src₁, hset₁, hexec⟩ := bind_eq_ok.mp hexec
    obtain ⟨src₂, hset₂, hexec⟩ := bind_eq_ok.mp hexec
    obtain ⟨src₃, hset₃, hexec⟩ := bind_eq_ok.mp hexec
    obtain ⟨src₄, hset₄, hexec⟩ := bind_eq_ok.mp hexec
    cases hexec
    have hshape₃ := ((DataPHV.shape_setValue hset₃).trans (DataPHV.shape_setValue hset₂)).trans
      (DataPHV.shape_setValue hset₁)
    have hshape₄ := (DataPHV.shape_setValue hset₄).trans hshape₃
    have hright := h.get hget
    refine (h.set (hright.setPHV (DataPHV.headerBytes_of_shape hshape₄))).append ?_
    show p.register0 = UInt64.ofNat
      ((phv.toDataPHV.copyHeaders src₃).headerBytes + p.packet.buffer.clone.data.length)
    rw [DataPHV.headerBytes_copyHeaders (hlengths.of_shape hshape₃),
      DataPHV.headerBytes_of_shape hshape₃, PacketBuffer.data_clone]
    exact hright
  | enqueue i =>
    obtain ⟨⟨p, stage⟩, hget, hexec⟩ := bind_eq_ok.mp hexec
    cases stage <;> try cases hexec
    exact h.set (h.get hget)
  | egress i =>
    obtain ⟨⟨p, stage⟩, hget, hexec⟩ := bind_eq_ok.mp hexec
    cases stage <;> try cases hexec
    obtain ⟨phv, hset, hexec⟩ := bind_eq_ok.mp hexec
    cases hexec
    exact h.set ((h.get hget).setPHV (DataPHV.headerBytes_of_shape (DataPHV.shape_setValue hset)))
  | egressClone i phv register0 fieldListId =>
    obtain ⟨⟨p, stage⟩, hget, hexec⟩ := bind_eq_ok.mp hexec
    have hregister := hkeeps p stage (orFault_eq_ok.mp hget)
    cases stage <;> try cases hexec
    obtain ⟨copy, hcopy, hexec⟩ := bind_eq_ok.mp hexec
    cases hexec
    have hright : (cloneWithPHV p phv register0).Right := hregister
    exact h.append (right_keepFields hright hcopy)
  | recirculate i phv register0 fieldListId =>
    obtain ⟨⟨p, stage⟩, hget, hexec⟩ := bind_eq_ok.mp hexec
    cases stage <;> try cases hexec
    obtain ⟨packet, -, hexec⟩ := bind_eq_ok.mp hexec
    obtain ⟨copy, hcopy, hexec⟩ := bind_eq_ok.mp hexec
    obtain ⟨phv', hset, hexec⟩ := bind_eq_ok.mp hexec
    cases hexec
    obtain ⟨phv₁, rfl, hbytes⟩ := keepFields_eq hcopy
    apply h.set
    show UInt64.ofNat packet.buffer.clone.data.length =
      UInt64.ofNat (phv'.headerBytes + packet.buffer.clone.data.length)
    rw [DataPHV.headerBytes_of_shape (DataPHV.shape_setValue hset)]
    show _ = UInt64.ofNat (phv₁.headerBytes + packet.buffer.clone.data.length)
    rw [hbytes, show (cloneNoPHV packet.buffer phv register0).packet.phv.headerBytes = 0 from
      phv.headerBytes, Nat.zero_add]
  | done i =>
    cases hexec
    exact fun q hq => h q (List.mem_of_mem_eraseIdx hq)

/-- **The length register is right in every run of steps that keep it.**  Every packet instance in
ingress or egress has in register 0 the bytes of its valid headers and its payload. -/
theorem right_of_keepsLength {ops : List Op} (hkeeps : RunMeets prog.step prog.KeepsLength [] ops)
    (hrun : runFrom prog.step [] ops = some s) : ∀ q ∈ s, q.1.register0 = UInt64.ofNat q.1.size := by
  refine runFrom_invariant_of_meets (I := AllRight) ?_ (fun q hq => absurd hq List.not_mem_nil) hkeeps
    hrun
  intro s op s' hs hop hstep
  have hexec : prog.exec s op = .ok s' := by
    unfold step Except.toOption at hstep
    split at hstep
    · cases hstep
      assumption
    · cases hstep
  exact hs.exec hop hexec

/-- A program with two fields of metadata and one header of a byte, which the parser extracts. -/
def oneByte : SwitchProgram where
  parser :=
    { states := [⟨[.extract 1], false, [], [], none⟩]
      initState := some 0
      vlExpr := fun _ _ => 0 }
  deparser := ⟨[1], []⟩
  typeId := id
  fieldList := fun _ => some []
  instanceType := (0, 0)
  packetLength := (0, 1)
  egressRid := (0, 0)
  bridgePort := (0, 0)

/-- A field without a value. -/
def emptyField (nbits : ℕ) (hidden : Bool) : DataField :=
  ⟨⟨nbits, List.replicate (nbitsToNbytes nbits) 0, hidden⟩, false, true, 0⟩

/-- A new PHV of that program. -/
def oneBytePHV : PooledPHV where
  headers := [⟨[emptyField 16 false, emptyField 16 false, emptyField 1 true], false, true, 4, none⟩,
    ⟨[emptyField 8 false, emptyField 1 true], false, false, 1, none⟩]
  headerStacks := []
  reset := by decide

theorem parsesOnce_oneByte {n : ℕ} {pkt : Packet} (hfresh : Parser.Unextracted pkt.phv 1) :
    oneByte.parser.ParsesOnce n pkt := by
  have hended (p : Parser) (data : List Byte) (m : ℕ) (s : ParseCtx) :
      TurnsMeet (p.turn data) (p.TurnOnce data) m (s, none) := by
    induction m with
    | zero => trivial
    | succ m ih => exact ⟨trivial, fun c hc => by cases hc; exact ih⟩
  intro i hi
  cases hi
  cases n with
  | zero => trivial
  | succ n =>
    refine ⟨fun st hst => ?_, fun c hc => ?_⟩
    · cases hst
      exact ⟨hfresh, fun _ _ => trivial⟩
    · obtain ⟨st, hst, hc⟩ := bind_eq_ok.mp hc
      cases hst
      obtain ⟨s, -, hc⟩ := bind_eq_ok.mp hc
      cases hc
      exact hended _ _ n _

set_option maxRecDepth 4000 in
/-- The parser extracts the header, which is then removed and added again. -/
theorem right_of_keepsLength_call : ∃ s : Instances,
    runFrom oneByte.step [] [.receive [7, 9] oneBytePHV, .ingress 0 2, .call 0 (.removeHeader 1),
      .call 0 (.addHeader 1), .enqueue 0, .egress 0] = some s ∧
    ∀ q ∈ s, q.1.register0 = UInt64.ofNat q.1.size := by
  obtain ⟨s, hs⟩ : ∃ s, runFrom oneByte.step [] [.receive [7, 9] oneBytePHV, .ingress 0 2,
      .call 0 (.removeHeader 1), .call 0 (.addHeader 1), .enqueue 0, .egress 0] = some s := ⟨_, rfl⟩
  refine ⟨s, hs, right_of_keepsLength ?_ hs⟩
  refine ⟨trivial, fun s₁ hs₁ => ⟨fun p hp => parsesOnce_oneByte ?_, fun s₂ hs₂ => ⟨?_, ?_⟩⟩⟩
  · cases hs₁
    cases hp
    rintro h ⟨⟩
    exact ⟨rfl, rfl⟩
  · cases hs₁
    cases hs₂
    rintro p stage ⟨⟩ h ⟨⟩
    exact .inl rfl
  · exact fun s₃ _ => ⟨fun _ _ _ => trivial, fun s₄ _ => ⟨trivial, fun s₅ _ => ⟨trivial,
      fun s₆ _ => trivial⟩⟩⟩

set_option maxRecDepth 4000 in
/-- `add_header_fast` makes a header of a byte valid, and leaves the register. -/
theorem addHeaderFast_not_right : ∃ s q, q ∈ (s : Instances) ∧
    runFrom oneByte.step [] [.receive [7, 9] oneBytePHV, .ingress 0 2, .call 0 (.removeHeader 1),
      .call 0 (.addHeaderFast 1)] = some s ∧
    q.1.register0 = 1 ∧ q.1.size = 2 := by
  refine ⟨_, _, List.mem_singleton_self _, rfl, ?_, ?_⟩
  · decide
  · decide

end SwitchProgram

end Bm
