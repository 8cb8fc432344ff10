/-
# The debugger

`DebuggerNN` (`debugger.cpp`): one client sends requests, and the packets and the configuration swaps of
the switch are held back and reported to it.  Every function runs under one lock, which a thread that waits
gives back, so a step of a thread is what it does from one such point to the next.

The socket keeps its order.  A message is what its fields say and not its bytes, and how long the
request thread waits is not modelled: its time is up at any moment.
-/
import Bmv2.Phv
import Bmv2.Lib.Faults

namespace Bm

/-- `Debugger::PacketId`. -/
structure PacketId where
  packetId : ℕ
  copyId : ℕ
  deriving DecidableEq

/-- The messages of the client. -/
inductive Request where
  | continue_
  | next
  | getValue (packetId : PacketId) (id : ℕ)
  | getBacktrace (packetId : PacketId)
  | breakPacketIn
  | removePacketIn
  | stopPacketIn
  | resumePacketIn
  | filterNotifications (ids : List PacketId)
  | setWatchpoint (id : ℕ)
  | unsetWatchpoint (id : ℕ)
  | reset
  | attach
  | detach
  deriving DecidableEq

/-- The messages of the debugger. -/
inductive Reply where
  | status (reqId status aux : ℕ)
  | fieldValue (reqId : ℕ) (packetId : PacketId) (id : ℕ) (bytes : ByteContainer)
  | backtrace (reqId : ℕ) (packetId : PacketId) (stack : List ℕ)
  | packetIn (reqId : ℕ) (packetId : PacketId) (port : ℤ)
  | keepAlive (reqId : ℕ)
  deriving DecidableEq

/-- Why a thread cannot take a step: it waits, an assertion about the packet or about the reply fails, or a
value is taken from an empty stack. -/
inductive Halt where
  | blocked
  | packetId
  | emptyStack
  | replyReady
  deriving DecidableEq

/-- `DebuggerNN`: the packets in the switch with their registers and stacks, what the client has asked for,
and the reply. -/
structure DebuggerNN where
  stopPacketIn : Bool := false
  canContinue : Bool := true
  attached : Bool := false
  breakPacketIn : Bool := false
  breakNext : Bool := false
  watchpoints : Finset ℕ := ∅
  filter : Finset PacketId := ∅
  filterAll : Finset ℕ := ∅
  packetIdsCount : ℕ → ℕ := fun _ => 0
  packetRegistersMap : PacketId → Option (ℕ → Option ByteContainer) := fun _ => none
  packetCtrStacks : PacketId → Option (List ℕ) := fun _ => none
  repStorage : Option Reply := none
  replyReady : Bool := false
  reqId : ℕ := 0

namespace DebuggerNN

variable (d : DebuggerNN)

/-! ## Replies -/

/-- What the functions that send have in common. -/
def reply (rep : Reply) : Except Halt DebuggerNN :=
  if d.replyReady then .error .replyReady else .ok { d with repStorage := some rep, replyReady := true }

/-- `send_rep_status`. -/
def sendRepStatus (status aux : ℕ) : Except Halt DebuggerNN := d.reply (.status d.reqId status aux)

/-- `send_field_value`. -/
def sendFieldValue (packetId : PacketId) (id : ℕ) (bytes : ByteContainer) : Except Halt DebuggerNN :=
  d.reply (.fieldValue d.reqId packetId id bytes)

/-- `send_backtrace`. -/
def sendBacktrace (packetId : PacketId) (stack : List ℕ) : Except Halt DebuggerNN :=
  d.reply (.backtrace d.reqId packetId stack)

/-- `send_packet_in`. -/
def sendPacketIn (packetId : PacketId) (port : ℤ) : Except Halt DebuggerNN :=
  d.reply (.packetIn d.reqId packetId port)

/-- `send_keep_alive`. -/
def sendKeepAlive : Except Halt DebuggerNN := d.reply (.keepAlive d.reqId)

/-! ## Packets -/

/-- The packets are held back, and the step that the client has asked for is taken. -/
def hold : DebuggerNN := { d with canContinue := false, breakNext := false }

/-- `wait_for_continue`, before what the thread does then. -/
def waitForContinue (next : Except Halt DebuggerNN) : Except Halt DebuggerNN :=
  if d.canContinue then next else .error .blocked

/-- `in_filters`. -/
def inFilters (packetId : PacketId) : Bool :=
  (d.filter = ∅ ∧ d.filterAll = ∅) ∨ packetId.packetId ∈ d.filterAll ∨ packetId ∈ d.filter

/-- `notify_update_generic`. -/
def notifyUpdateGeneric (packetId : PacketId) (id : ℕ) (bytes : ByteContainer) (nbits : ℕ) :
    Except Halt DebuggerNN :=
  match d.packetRegistersMap packetId with
  | none => .error .packetId
  | some registers =>
    let bytes := bytes.take ((nbits + 7) / 8)
    let registers := Function.update registers id (some bytes)
    let d := { d with packetRegistersMap := Function.update d.packetRegistersMap packetId (some registers) }
    if d.inFilters packetId ∧ (d.breakNext ∨ id ∈ d.watchpoints) then d.hold.sendFieldValue packetId id bytes
    else .ok d

/-- `notify_update_`, for bytes. -/
def notifyUpdate (packetId : PacketId) (id : ℕ) (bytes : ByteContainer) (nbits : ℕ) :
    Except Halt DebuggerNN :=
  d.waitForContinue (d.notifyUpdateGeneric packetId id bytes nbits)

/-- `uint32_to_bytes`. -/
def uint32ToBytes (v : BitVec 32) : ByteContainer :=
  [v.extractLsb' 24 8, v.extractLsb' 16 8, v.extractLsb' 8 8, v.extractLsb' 0 8]

/-- `notify_update_`, for a number. -/
def notifyUpdate32 (packetId : PacketId) (id : ℕ) (v : BitVec 32) : Except Halt DebuggerNN :=
  d.notifyUpdate packetId id (uint32ToBytes v) 32

/-- `FIELD_CTR`. -/
def fieldCtr : ℕ := 2 ^ 64 - 1

/-- `notify_ctr_`: the first bit of a counter tells that it is left. -/
def notifyCtr (packetId : PacketId) (ctr : BitVec 32) : Except Halt DebuggerNN :=
  d.waitForContinue <|
    match d.packetCtrStacks packetId with
    | none => .error .packetId
    | some stack =>
      if ctr.msb ∧ stack = [] then .error .emptyStack
      else
        let stack := if ctr.msb then stack.dropLast else stack ++ [ctr.toNat]
        let d := { d with packetCtrStacks := Function.update d.packetCtrStacks packetId (some stack) }
        d.notifyUpdateGeneric packetId fieldCtr (uint32ToBytes ctr) 32

/-- `packet_in_`: while new packets are stopped, copies of the packets in the switch are not. -/
def packetIn (packetId : PacketId) (port : ℤ) : Except Halt DebuggerNN :=
  if !d.canContinue ∨ (d.stopPacketIn ∧ d.packetIdsCount packetId.packetId = 0) then .error .blocked
  else if (d.packetRegistersMap packetId).isSome ∨ (d.packetCtrStacks packetId).isSome then
    .error .packetId
  else
    let d := { d with
      packetRegistersMap := Function.update d.packetRegistersMap packetId (some fun _ => none)
      packetCtrStacks := Function.update d.packetCtrStacks packetId (some [])
      packetIdsCount := Function.update d.packetIdsCount packetId.packetId
        (d.packetIdsCount packetId.packetId + 1) }
    if d.inFilters packetId ∧ (d.breakNext ∨ d.breakPacketIn) then
      d.hold.sendPacketIn packetId port
    else .ok d

/-- `packet_out_`. -/
def packetOut (packetId : PacketId) : Except Halt DebuggerNN :=
  d.waitForContinue <|
    if (d.packetRegistersMap packetId).isNone ∨ (d.packetCtrStacks packetId).isNone ∨
        d.packetIdsCount packetId.packetId = 0 then .error .packetId
    else
      .ok { d with
        packetRegistersMap := Function.update d.packetRegistersMap packetId none
        packetCtrStacks := Function.update d.packetCtrStacks packetId none
        packetIdsCount := Function.update d.packetIdsCount packetId.packetId
          (d.packetIdsCount packetId.packetId - 1) }

/-! ## Requests -/

/-- `reset_state`. -/
def resetState : DebuggerNN :=
  { d with
    watchpoints := ∅, filter := ∅, filterAll := ∅, breakPacketIn := false, reqId := 0
    stopPacketIn := false }

/-- `req_get_value`. -/
def reqGetValue (packetId : PacketId) (id : ℕ) : Except Halt DebuggerNN :=
  match d.packetRegistersMap packetId with
  | none => d.sendRepStatus 1 0
  | some registers =>
    match registers id with
    | none => d.sendRepStatus 2 0
    | some bytes => d.sendFieldValue packetId id bytes

/-- `req_get_backtrace`. -/
def reqGetBacktrace (packetId : PacketId) : Except Halt DebuggerNN :=
  match d.packetCtrStacks packetId with
  | none => d.sendRepStatus 1 0
  | some stack => d.sendBacktrace packetId stack

/-- `req_filter_notifications`: the largest copy id stands for all copies. -/
def reqFilterNotifications (ids : List PacketId) : Except Halt DebuggerNN :=
  { d with
    filter := (ids.filter fun id : PacketId => id.copyId ≠ 2 ^ 64 - 1).toFinset
    filterAll := ((ids.filter fun id : PacketId => id.copyId = 2 ^ 64 - 1).map PacketId.packetId).toFinset
    }.sendRepStatus 0 0

/-- `req_attach`. -/
def reqAttach : Except Halt DebuggerNN :=
  if d.attached then d.sendRepStatus 1 0
  else { d with attached := true, canContinue := false }.resetState.sendRepStatus 0 0

/-- `req_detach`. -/
def reqDetach : Except Halt DebuggerNN :=
  if !d.attached then d.sendRepStatus 1 0
  else { { d with attached := false }.resetState with canContinue := true }.sendRepStatus 0 0

/-- `request_dispatch`, with the requests that need no definition of their own. -/
def requestDispatch : Request → Except Halt DebuggerNN
  | .continue_ => .ok { d with canContinue := true }
  | .next => .ok { d with canContinue := true, breakNext := true }
  | .getValue packetId id => d.reqGetValue packetId id
  | .getBacktrace packetId => d.reqGetBacktrace packetId
  | .breakPacketIn => { d with breakPacketIn := true }.sendRepStatus 0 0
  | .removePacketIn =>
    if !d.breakPacketIn then d.sendRepStatus 1 0
    else { d with breakPacketIn := false }.sendRepStatus 0 0
  | .stopPacketIn => { d with stopPacketIn := true }.sendRepStatus 0 0
  | .resumePacketIn =>
    if !d.stopPacketIn then d.sendRepStatus 1 0
    else { d with stopPacketIn := false }.sendRepStatus 0 0
  | .filterNotifications ids => d.reqFilterNotifications ids
  | .setWatchpoint id => { d with watchpoints := insert id d.watchpoints }.sendRepStatus 0 0
  | .unsetWatchpoint id =>
    { d with watchpoints := d.watchpoints.erase id }.sendRepStatus (if id ∈ d.watchpoints then 0 else 1) 0
  | .reset => d.resetState.sendRepStatus 0 0
  | .attach => d.reqAttach
  | .detach => d.reqDetach

/-- `config_change_`, when it no longer waits. -/
def configChange : Except Halt DebuggerNN := d.resetState.sendRepStatus 999 0

end DebuggerNN

/-! ## Threads -/

/-- Where the request thread is: it waits for a request, it has one, `reply_ready` has been cleared,
`req_id` has been set, or the request has been handled. -/
inductive RequestPhase where
  | idle
  | received (req : Request) (reqId : ℕ)
  | cleared (req : Request) (reqId : ℕ)
  | numbered (req : Request)
  | waiting
  deriving DecidableEq

/-- The debugger with its threads: the request thread, the configuration changes that wait, and, for
the record, the number of requests received and the replies sent. -/
structure DebuggerThreads where
  debugger : DebuggerNN := {}
  phase : RequestPhase := .idle
  waitingChanges : ℕ := 0
  received : ℕ := 0
  sent : List Reply := []

/-- A step of a thread. -/
inductive DebuggerAct where
  | receive (req : Request) (reqId : ℕ)
  | clear
  | number
  | dispatch
  | timeout
  | send
  | packetIn (packetId : PacketId) (port : ℤ)
  | notifyUpdate (packetId : PacketId) (id : ℕ) (bytes : ByteContainer) (nbits : ℕ)
  | notifyUpdate32 (packetId : PacketId) (id : ℕ) (v : BitVec 32)
  | notifyCtr (packetId : PacketId) (ctr : BitVec 32)
  | packetOut (packetId : PacketId)
  | configChange
  | configResume
  deriving DecidableEq

namespace DebuggerThreads

variable (s : DebuggerThreads)

/-- A step of the request thread, `request_in`. -/
def requestIn : DebuggerAct → Except Halt DebuggerThreads
  | .receive req reqId =>
    match s.phase with
    | .idle => .ok { s with phase := .received req reqId, received := s.received + 1 }
    | _ => .error .blocked
  | .clear =>
    match s.phase with
    | .received req reqId =>
      .ok { s with debugger := { s.debugger with replyReady := false }, phase := .cleared req reqId }
    | _ => .error .blocked
  | .number =>
    match s.phase with
    | .cleared req reqId =>
      .ok { s with debugger := { s.debugger with reqId }, phase := .numbered req }
    | _ => .error .blocked
  | .dispatch =>
    match s.phase with
    | .numbered req => do
      let debugger ← s.debugger.requestDispatch req
      pure { s with debugger, phase := .waiting }
    | _ => .error .blocked
  | .timeout =>
    if s.phase = .waiting ∧ s.debugger.replyReady = false then do
      let debugger ← s.debugger.hold.sendKeepAlive
      pure { s with debugger }
    else .error .blocked
  | .send =>
    if s.phase = .waiting ∧ s.debugger.replyReady then
      .ok { s with phase := .idle, sent := s.sent ++ s.debugger.repStorage.toList }
    else .error .blocked
  | _ => .error .blocked

/-- A step of a packet thread. -/
def packetStep (d : DebuggerNN) : DebuggerAct → Except Halt DebuggerNN
  | .packetIn packetId port => d.packetIn packetId port
  | .notifyUpdate packetId id bytes nbits => d.notifyUpdate packetId id bytes nbits
  | .notifyUpdate32 packetId id v => d.notifyUpdate32 packetId id v
  | .notifyCtr packetId ctr => d.notifyCtr packetId ctr
  | .packetOut packetId => d.packetOut packetId
  | _ => .error .blocked

/-- A step of a thread that changes the configuration, `config_change_`.  It looks only once whether a
client is attached. -/
def configStep : DebuggerAct → Except Halt DebuggerThreads
  | .configChange =>
    if !s.debugger.attached then .ok s
    else if !s.debugger.canContinue then .ok { s with waitingChanges := s.waitingChanges + 1 }
    else do
      let debugger ← s.debugger.configChange
      pure { s with debugger }
  | .configResume =>
    if 0 < s.waitingChanges ∧ s.debugger.canContinue then do
      let debugger ← s.debugger.configChange
      pure { s with debugger, waitingChanges := s.waitingChanges - 1 }
    else .error .blocked
  | _ => .error .blocked

end DebuggerThreads

/-- The step is one of the request thread. -/
def DebuggerAct.OfRequest : DebuggerAct → Bool
  | .receive _ _ | .clear | .number | .dispatch | .timeout | .send => true
  | _ => false

/-- The step is one of a packet thread. -/
def DebuggerAct.OfPacket : DebuggerAct → Bool
  | .packetIn _ _ | .notifyUpdate _ _ _ _ | .notifyUpdate32 _ _ _ | .notifyCtr _ _ | .packetOut _ => true
  | _ => false

/-- A step of any thread. -/
def DebuggerThreads.step (s : DebuggerThreads) (act : DebuggerAct) : Except Halt DebuggerThreads :=
  if act.OfRequest then s.requestIn act
  else if act.OfPacket then do
    let debugger ← packetStep s.debugger act
    pure { s with debugger }
  else s.configStep act

end Bm
