/-
# The parser

`Parser` and `ParseState` (`parser.cpp`, `parser.h`) with what they use of
`HeaderStack`, `PHV` and `PacketBuffer`.  What ends the process or reads beyond a
buffer is a `ParseFault`.
-/
import Bmv2.Lib.Faults
import Bmv2.Headers
import Bmv2.ParseVSets

namespace Bm

/-- Why a parser does not go on. -/
inductive ParseFault where
  /-- A read beyond the end of the packet. -/
  | packetEnd
  /-- `get_next` of a full stack. -/
  | stackFull
  /-- `get_last` of an empty stack. -/
  | stackEmpty
  /-- `Packet::remove` of more bytes than the packet has in front of its payload. -/
  | removal
  /-- A header of a computed length that is not possible, or a key of another length. -/
  | size
  /-- There is no such header, field, stack or state. -/
  | id
  deriving DecidableEq

/-! ## Headers and stacks -/

/-- `HeaderStack`: the ids of its headers; `next` is the first empty index. -/
structure HeaderStack where
  headers : List ℕ
  next : ℕ
  deriving DecidableEq

namespace HeaderStack

/-- `get_next`. -/
def getNext (s : HeaderStack) : Except ParseFault ℕ :=
  if s.next < s.headers.length then orFault .id s.headers[s.next]? else .error .stackFull

/-- `get_last`. -/
def getLast (s : HeaderStack) : Except ParseFault ℕ :=
  if 0 < s.next then orFault .id s.headers[s.next - 1]? else .error .stackEmpty

/-- `push_back`, of a header that is valid already. -/
def pushBack (s : HeaderStack) : HeaderStack :=
  if s.next = s.headers.length then s else { s with next := s.next + 1 }

end HeaderStack

/-- `PHV`: the headers with their fields, and the header stacks. -/
structure DataPHV where
  headers : List DataHeader
  headerStacks : List HeaderStack
  deriving DecidableEq

namespace DataPHV

def getHeader (phv : DataPHV) (header : ℕ) : Except ParseFault DataHeader :=
  orFault .id phv.headers[header]?

def getStack (phv : DataPHV) (stack : ℕ) : Except ParseFault HeaderStack :=
  orFault .id phv.headerStacks[stack]?

def getField (phv : DataPHV) (f : ℕ × ℕ) : Except ParseFault DataField := do
  let h ← phv.getHeader f.1
  orFault .id h.fields[f.2]?

def setHeader (phv : DataPHV) (header : ℕ) (h : DataHeader) : DataPHV :=
  { phv with headers := phv.headers.set header h }

def setStack (phv : DataPHV) (stack : ℕ) (s : HeaderStack) : DataPHV :=
  { phv with headerStacks := phv.headerStacks.set stack s }

/-- A new content for a field. -/
def setField (phv : DataPHV) (dst : ℕ × ℕ) (f : DataField) : Except ParseFault DataPHV := do
  let h ← phv.getHeader dst.1
  pure (phv.setHeader dst.1 { h with fields := h.fields.set dst.2 f })

end DataPHV

namespace DataHeader

/-- The loop of `extract_VL`, with the reason for its end: a negative length, or the end of the
packet. -/
def tryExtractVLFields (vlOffset : ℕ) (vlExpr : List DataField → ℤ) :
    List DataField → List DataField → List Byte → ℕ → ℕ → Except ParseFault (List DataField × ℕ)
  | done, [], _, _, nbits => .ok (done, nbits)
  | done, f :: fs, data, hdrOffset, nbits =>
      if f.hidden then .ok (done ++ f :: fs, nbits)
      else do
        let computed : ℤ := if done.length = vlOffset then vlExpr (done ++ f :: fs) else f.nbits
        if computed < 0 then .error .size
        else do
          let f ← orFault .packetEnd
            (DataField.extract { f with nbits := computed.toNat } data hdrOffset)
          tryExtractVLFields vlOffset vlExpr (done ++ [f]) fs
            (data.drop ((hdrOffset + f.nbits) / 8)) ((hdrOffset + f.nbits) % 8) (nbits + f.nbits)

/-- `Header::extract`, with the reason when it fails. -/
def tryExtract (h : DataHeader) (vlExpr : List DataField → ℤ) (data : List Byte) :
    Except ParseFault DataHeader :=
  match h.vlOffset with
  | none => do
      let fields ← orFault .packetEnd (extractFields h.fields data 0)
      pure { h with fields }.markValid
  | some vlOffset => do
      let (fields, nbits) ← tryExtractVLFields vlOffset vlExpr [] h.fields data 0 0
      if nbits % 8 = 0 then pure { h with fields, nbytesPacket := nbits / 8 }.markValid
      else .error .size

end DataHeader

/-! ## Parse states -/

/-- `ParserLookAhead`. -/
structure LookAhead where
  offset : ℕ
  bitwidth : ℕ
  deriving DecidableEq

/-- `ParserLookAhead::peek`. -/
def LookAhead.peek (l : LookAhead) (data : List Byte) : Except ParseFault ByteContainer :=
  orFault .packetEnd (genericExtract (data.drop (l.offset / 8)) (l.offset % 8) l.bitwidth)

/-- `ParserOp`; a field is a header id and an offset, an expression is what it evaluates to. -/
inductive ParserOp where
  | extract (header : ℕ)
  | extractStack (stack : ℕ)
  | setField (dst src : ℕ × ℕ)
  | setData (dst : ℕ × ℕ) (src : ℤ)
  | setLookAhead (dst : ℕ × ℕ) (src : LookAhead)
  | setExpression (dst : ℕ × ℕ) (eval : DataPHV → ℤ)

/-- The field that an operation sets. -/
def ParserOp.dst : ParserOp → Option (ℕ × ℕ)
  | .extract _ | .extractStack _ => none
  | .setField dst _ | .setData dst _ | .setLookAhead dst _ | .setExpression dst _ => some dst

/-- An entry of `ParseSwitchKeyBuilder`. -/
inductive KeyEntry where
  | field (header offset : ℕ)
  | stackField (stack offset : ℕ)
  | lookahead (l : LookAhead)
  deriving DecidableEq

/-- `ParseSwitchCaseIface`; the key of a case with a mask is masked already. -/
inductive SwitchCase where
  | exact (key : ByteContainer)
  | masked (key mask : ByteContainer)
  | vset (shadow : ParseVSetCommon)
  deriving DecidableEq

/-- `ParseState`; a state is named by its place in the parser. -/
structure ParseState where
  ops : List ParserOp
  hasSwitch : Bool
  keyBuilder : List KeyEntry
  cases : List (SwitchCase × Option ℕ)
  default : Option ℕ

/-- A parser with the expressions for the lengths of its headers. -/
structure Parser where
  states : List ParseState
  initState : Option ℕ
  vlExpr : ℕ → DataPHV → ℤ

/-- The headers so far, and `bytes_parsed`. -/
structure ParseCtx where
  phv : DataPHV
  bytesParsed : ℕ
  deriving DecidableEq

namespace Parser

variable (p : Parser) (data : List Byte)

/-- `hdr.extract(data, *phv)`: the expression for the length sees the header as it is so far. -/
def extractHeader (s : ParseCtx) (header : ℕ) : Except ParseFault DataHeader := do
  let h ← s.phv.getHeader header
  h.tryExtract (fun fields => p.vlExpr header (s.phv.setHeader header { h with fields }))
    (data.drop s.bytesParsed)

/-- The call of a `ParserOp`. -/
def runOp (s : ParseCtx) : ParserOp → Except ParseFault ParseCtx
  | .extract header => do
      let h ← p.extractHeader data s header
      pure ⟨s.phv.setHeader header h, s.bytesParsed + h.nbytesPacket⟩
  | .extractStack stack => do
      let st ← s.phv.getStack stack
      let header ← st.getNext
      let h ← p.extractHeader data s header
      pure ⟨(s.phv.setHeader header h).setStack stack st.pushBack, s.bytesParsed + h.nbytesPacket⟩
  | .setField dst src => do
      let f ← s.phv.getField dst
      let g ← s.phv.getField src
      let phv ← s.phv.setField dst (f.set g.value)
      pure { s with phv }
  | .setData dst src => do
      let f ← s.phv.getField dst
      let phv ← s.phv.setField dst (f.set src)
      pure { s with phv }
  | .setLookAhead dst src => do
      let f ← s.phv.getField dst
      let here := data.drop s.bytesParsed
      if src.bitwidth = f.nbits then
        let f ← orFault .packetEnd (f.extract (here.drop (src.offset / 8)) (src.offset % 8))
        let phv ← s.phv.setField dst f
        pure { s with phv }
      else
        let bytes ← src.peek here
        let phv ← s.phv.setField dst (f.set (beNat bytes))
        pure { s with phv }
  | .setExpression dst eval => do
      let f ← s.phv.getField dst
      let phv ← s.phv.setField dst (f.set (eval s.phv))
      pure { s with phv }

/-- What an entry appends to the key. -/
def keyBytes (s : ParseCtx) : KeyEntry → Except ParseFault ByteContainer
  | .field header offset => do
      let f ← s.phv.getField (header, offset)
      pure f.bytes
  | .stackField stack offset => do
      let st ← s.phv.getStack stack
      let header ← st.getLast
      let f ← s.phv.getField (header, offset)
      pure f.bytes
  | .lookahead l => l.peek (data.drop s.bytesParsed)

/-- The loop of `ParseSwitchKeyBuilder`. -/
def appendKey (s : ParseCtx) (key : ByteContainer) (e : KeyEntry) :
    Except ParseFault ByteContainer := do
  let bytes ← keyBytes data s e
  pure (key ++ bytes)

/-- The loop of `ParseSwitchCaseWithMask::match`, which ends at the first difference. -/
def matchMasked : ByteContainer → ByteContainer → ByteContainer → Except ParseFault Bool
  | [], _, _ => .ok true
  | k :: key, m :: mask, b :: input => if k ≠ b &&& m then .ok false else matchMasked key mask input
  | _, _, _ => .error .size

/-- `ParseSwitchCaseIface::match`. -/
def matchCase (input : ByteContainer) : SwitchCase → Except ParseFault Bool
  | .exact key => .ok (key == input)
  | .masked key mask => matchMasked key mask input
  | .vset shadow => orFault .size (shadow.contains input)

/-- The matches are tried in order. -/
def findCase (default : Option ℕ) (key : ByteContainer) :
    List (SwitchCase × Option ℕ) → Except ParseFault (Option ℕ)
  | [] => .ok default
  | (c, next) :: cases => do
      let found ← matchCase key c
      if found then pure next else findCase default key cases

/-- `ParseState::find_next_state`. -/
def findNextState (s : ParseCtx) (st : ParseState) : Except ParseFault (ParseCtx × Option ℕ) := do
  let s ← st.ops.foldlM (p.runOp data) s
  if !st.hasSwitch then pure (s, st.default)
  else
    let key ← st.keyBuilder.foldlM (appendKey data s) []
    let next ← findCase st.default key st.cases
    pure (s, next)

/-- One turn of the loop of `Parser::parse`. -/
def turn : ParseCtx × Option ℕ → Except ParseFault (ParseCtx × Option ℕ)
  | (s, none) => .ok (s, none)
  | (s, some i) => do
      let st ← orFault .id p.states[i]?
      p.findNextState data s st

end Parser

/-! ## Packets -/

/-- `PacketBuffer`: the data starts at `head` and goes to the end of the buffer. -/
structure PacketBuffer where
  buffer : List Byte
  head : ℕ
  head_le : head ≤ buffer.length

namespace PacketBuffer

def data (b : PacketBuffer) : List Byte := b.buffer.drop b.head

theorem length_data (b : PacketBuffer) : b.data.length = b.buffer.length - b.head := by
  rw [data, List.length_drop]

/-- `push`: room for bytes in front of the data; what is there stays there. -/
def push (b : PacketBuffer) (bytes : ℕ) : Option PacketBuffer :=
  if b.data.length + bytes ≤ b.buffer.length then
    some ⟨b.buffer, b.head - bytes, (Nat.sub_le _ _).trans b.head_le⟩
  else none

/-- `pop`: drops bytes from the front of the data. -/
def pop (b : PacketBuffer) (bytes : ℕ) : Option PacketBuffer :=
  if h : bytes ≤ b.data.length then
    some ⟨b.buffer, b.head + bytes, by
      have hlen := b.length_data
      have hle := b.head_le
      omega⟩
  else none

end PacketBuffer

/-- `Packet`, as far as parsing goes. -/
structure Packet where
  phv : DataPHV
  buffer : PacketBuffer
  payloadSize : ℕ

/-- `Packet::remove`. -/
def Packet.remove (pkt : Packet) (bytes : ℕ) : Except ParseFault Packet := do
  if pkt.buffer.data.length < pkt.payloadSize + bytes then .error .removal
  else
    let buffer ← orFault .removal (pkt.buffer.pop bytes)
    pure { pkt with buffer }

/-- `Parser::parse` with at most `n` turns of its loop; `none` when it has not ended by then. -/
def Parser.parse (p : Parser) (n : ℕ) (pkt : Packet) : Except ParseFault (Option Packet) :=
  match p.initState with
  | none => .ok (some pkt)
  | some i => do
      let (s, next) ← iterM (p.turn pkt.buffer.data) n (⟨pkt.phv, 0⟩, some i)
      match next with
      | some _ => pure none
      | none =>
          let pkt ← { pkt with phv := s.phv }.remove s.bytesParsed
          pure (some pkt)

end Bm
