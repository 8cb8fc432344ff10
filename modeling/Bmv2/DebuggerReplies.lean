/-
# One reply for each request

The client of the debugger (`debugger.cpp`) gets one reply for each request, and while it is attached and has
asked for nothing every packet is held back, as long as

* a configuration change ends only for a client that has detached and waits for a `CONTINUE`, and
* break conditions are set only while the packets are held back.

`debugger_disciplined` is the theorem about runs; `DebuggerThreads.Inv` is the invariant.
-/
import Bmv2.Debugger

namespace Bm

/-! ## Replies and break conditions -/

namespace DebuggerNN

variable {d d' : DebuggerNN}

/-- No break condition is pending. -/
structure NoBreaks (d : DebuggerNN) : Prop where
  breakPacketIn : d.breakPacketIn = false
  breakNext : d.breakNext = false
  watchpoints : d.watchpoints = ∅

/-- Between two requests: no step is pending, and packets go on only while no client is attached and no break
condition is set. -/
structure Held (d : DebuggerNN) : Prop where
  breakNext : d.breakNext = false
  noBreaks : d.canContinue = true → d.attached = false ∧ d.NoBreaks

theorem reply_eq_ok {rep : Reply} : d.reply rep = .ok d' ↔
    d.replyReady = false ∧ d' = { d with repStorage := some rep, replyReady := true } := by
  rw [reply]
  cases hready : d.replyReady with
  | true => exact iff_of_false (fun h => by cases h) (fun h => by cases h.1)
  | false =>
    rw [if_neg Bool.false_ne_true]
    constructor
    · intro h
      exact ⟨rfl, (Except.ok.inj h).symm⟩
    · rintro ⟨-, rfl⟩
      rfl

theorem exists_reply (hready : d.replyReady = false) (rep : Reply) :
    ∃ d', d.reply rep = .ok d' ∧ d'.replyReady = true ∧ d'.repStorage.isSome :=
  ⟨_, reply_eq_ok.mpr ⟨hready, rfl⟩, rfl, rfl⟩

theorem avoids_reply {rep : Reply} : Avoids (· = .replyReady) (d.reply rep) ↔ d.replyReady = false := by
  rw [reply]
  cases d.replyReady <;> simp

end DebuggerNN

/-- The request sets a break condition that stays. -/
def Request.SetsBreak : Request → Prop
  | .breakPacketIn | .setWatchpoint _ => True
  | _ => False

namespace DebuggerNN

variable {d d' : DebuggerNN}

/-- The flags of two states are the same. -/
structure SameFlags (d d' : DebuggerNN) : Prop where
  canContinue : d'.canContinue = d.canContinue
  attached : d'.attached = d.attached
  breakPacketIn : d'.breakPacketIn = d.breakPacketIn
  breakNext : d'.breakNext = d.breakNext
  watchpoints : d'.watchpoints = d.watchpoints
  replyReady : d'.replyReady = d.replyReady
  repStorage : d'.repStorage = d.repStorage

theorem SameFlags.refl (d : DebuggerNN) : SameFlags d d := ⟨rfl, rfl, rfl, rfl, rfl, rfl, rfl⟩

theorem SameFlags.noBreaks (h : SameFlags d d') (hbreaks : d.NoBreaks) : d'.NoBreaks :=
  ⟨h.breakPacketIn.trans hbreaks.breakPacketIn, h.breakNext.trans hbreaks.breakNext,
    h.watchpoints.trans hbreaks.watchpoints⟩

theorem SameFlags.held (h : SameFlags d d') (hheld : d.Held) : d'.Held := by
  refine ⟨h.breakNext.trans hheld.breakNext, fun hgo => ?_⟩
  obtain ⟨hattached, hbreaks⟩ := hheld.noBreaks (h.canContinue.symm.trans hgo)
  exact ⟨h.attached.trans hattached, h.noBreaks hbreaks⟩

theorem held_hold (d : DebuggerNN) : d.hold.Held := ⟨rfl, fun h => by cases h⟩

/-! ## Packets -/

/-- What a step of a packet thread can do: it waits or another assertion fails, it leaves the flags
alone, or it notifies the client of a break. -/
inductive PacketOutcome (d : DebuggerNN) : Except Halt DebuggerNN → Prop
  | failed {e : Halt} (he : e ≠ .replyReady) : PacketOutcome d (.error e)
  | passed {d₁ : DebuggerNN} (hsame : SameFlags d d₁) : PacketOutcome d (.ok d₁)
  | notified {d₁ : DebuggerNN} {rep : Reply} (hbreaks : ¬ d.NoBreaks) (hgo : d.canContinue = true) (hsame : SameFlags d d₁) :
      PacketOutcome d (d₁.hold.reply rep)

theorem waitForContinue_outcome {next : Except Halt DebuggerNN}
    (h : d.canContinue = true → PacketOutcome d next) : PacketOutcome d (d.waitForContinue next) := by
  rw [waitForContinue]
  split
  next hgo => exact h hgo
  next => exact .failed (by decide)

theorem notifyUpdateGeneric_outcome {d₁ : DebuggerNN} (hgo : d.canContinue = true) (hsame : SameFlags d d₁)
    (packetId : PacketId) (id : ℕ) (bytes : ByteContainer) (nbits : ℕ) :
    PacketOutcome d (d₁.notifyUpdateGeneric packetId id bytes nbits) := by
  rw [notifyUpdateGeneric]
  split
  · exact .failed (by decide)
  · have hsame' : ∀ registers, SameFlags d { d₁ with packetRegistersMap := registers } := fun _ =>
      ⟨hsame.canContinue, hsame.attached, hsame.breakPacketIn, hsame.breakNext, hsame.watchpoints,
        hsame.replyReady, hsame.repStorage⟩
    dsimp only
    split
    next hbreak =>
      refine .notified ?_ hgo (hsame' _)
      rintro ⟨-, hnext, hwatch⟩
      rw [hsame.breakNext, hsame.watchpoints, hnext, hwatch] at hbreak
      simp at hbreak
    next => exact .passed (hsame' _)

theorem notifyUpdate_outcome (d : DebuggerNN) (packetId : PacketId) (id : ℕ) (bytes : ByteContainer)
    (nbits : ℕ) : PacketOutcome d (d.notifyUpdate packetId id bytes nbits) :=
  waitForContinue_outcome fun hgo => notifyUpdateGeneric_outcome hgo (.refl d) packetId id bytes nbits

theorem notifyCtr_outcome (d : DebuggerNN) (packetId : PacketId) (ctr : BitVec 32) :
    PacketOutcome d (d.notifyCtr packetId ctr) := by
  refine waitForContinue_outcome fun hgo => ?_
  split
  · exact .failed (by decide)
  · split
    · exact .failed (by decide)
    · apply notifyUpdateGeneric_outcome hgo
      exact ⟨rfl, rfl, rfl, rfl, rfl, rfl, rfl⟩

theorem packetIn_outcome (d : DebuggerNN) (packetId : PacketId) (port : ℤ) :
    PacketOutcome d (d.packetIn packetId port) := by
  rw [packetIn]
  split
  · exact .failed (by decide)
  next hgo =>
    split
    · exact .failed (by decide)
    · dsimp only
      split
      next hbreak =>
        apply PacketOutcome.notified
        · rintro ⟨hin, hnext, -⟩
          rw [hnext, hin] at hbreak
          simp at hbreak
        · by_contra hstop
          exact hgo (.inl (by simpa using hstop))
        · exact ⟨rfl, rfl, rfl, rfl, rfl, rfl, rfl⟩
      next => exact .passed ⟨rfl, rfl, rfl, rfl, rfl, rfl, rfl⟩

theorem packetOut_outcome (d : DebuggerNN) (packetId : PacketId) :
    PacketOutcome d (d.packetOut packetId) := by
  refine waitForContinue_outcome fun _ => ?_
  split
  · exact .failed (by decide)
  · exact .passed ⟨rfl, rfl, rfl, rfl, rfl, rfl, rfl⟩

/-- **What a step of a packet thread does.** -/
theorem packetStep_outcome (d : DebuggerNN) (act : DebuggerAct) :
    PacketOutcome d (DebuggerThreads.packetStep d act) := by
  cases act with
  | packetIn packetId port => exact d.packetIn_outcome packetId port
  | notifyUpdate packetId id bytes nbits => exact d.notifyUpdate_outcome packetId id bytes nbits
  | notifyUpdate32 packetId id v => exact d.notifyUpdate_outcome packetId id _ 32
  | notifyCtr packetId ctr => exact d.notifyCtr_outcome packetId ctr
  | packetOut packetId => exact d.packetOut_outcome packetId
  | _ => exact .failed (by decide)

/-- Every step of a packet thread waits while the packets are held back. -/
theorem packetStep_blocked (hstop : d.canContinue = false) {act : DebuggerAct} (hact : act.OfPacket) :
    DebuggerThreads.packetStep d act = .error .blocked := by
  have hwait (next : Except Halt DebuggerNN) : d.waitForContinue next = .error .blocked := by
    rw [waitForContinue, hstop, if_neg Bool.false_ne_true]
  cases act with
  | packetIn packetId port =>
    rw [DebuggerThreads.packetStep, packetIn, if_pos (.inl (by rw [hstop]; rfl))]
  | notifyUpdate packetId id bytes nbits => exact hwait _
  | notifyUpdate32 packetId id v => exact hwait _
  | notifyCtr packetId ctr => exact hwait _
  | packetOut packetId => exact hwait _
  | _ => cases hact

/-! ## Requests -/

theorem noBreaks_resetState (hnext : d.breakNext = false) : d.resetState.NoBreaks := ⟨rfl, hnext, rfl⟩

theorem Held.of_reply {rep : Reply} (h : d.Held) (hreply : d.reply rep = .ok d') : d'.Held := by
  obtain ⟨-, rfl⟩ := reply_eq_ok.mp hreply
  exact ⟨h.breakNext, fun hgo => ⟨(h.noBreaks hgo).1, (h.noBreaks hgo).2.1, (h.noBreaks hgo).2.2,
    (h.noBreaks hgo).2.3⟩⟩

theorem NoBreaks.of_reply {rep : Reply} (h : d.NoBreaks) (hreply : d.reply rep = .ok d') : d'.NoBreaks := by
  obtain ⟨-, rfl⟩ := reply_eq_ok.mp hreply
  exact ⟨h.breakPacketIn, h.breakNext, h.watchpoints⟩

/-- **What a request does that is answered at once.**  Between two requests it leaves what held before, if a
break condition is only set while the packets are held back. -/
theorem requestDispatch_reply (d : DebuggerNN) {req : Request} (hcontinue : req ≠ .continue_)
    (hnext : req ≠ .next) :
    ∃ (d₁ : DebuggerNN) (rep : Reply), d.requestDispatch req = d₁.reply rep ∧ d₁.replyReady = d.replyReady ∧
      (d.Held → (req.SetsBreak → d.canContinue = false) → d₁.Held) := by
  have hsame (rep : Reply) : ∃ (d₁ : DebuggerNN) (rep' : Reply), d.reply rep = d₁.reply rep' ∧
      d₁.replyReady = d.replyReady ∧ (d.Held → (req.SetsBreak → d.canContinue = false) → d₁.Held) :=
    ⟨d, rep, rfl, rfl, fun h _ => h⟩
  have hflags (d₁ : DebuggerNN) (hsame : SameFlags d d₁) : d.Held → d₁.Held := hsame.held
  cases req with
  | continue_ => exact absurd rfl hcontinue
  | next => exact absurd rfl hnext
  | getValue packetId id =>
    rw [requestDispatch, reqGetValue]
    split
    · exact hsame _
    · split
      · exact hsame _
      · exact hsame _
  | getBacktrace packetId =>
    rw [requestDispatch, reqGetBacktrace]
    split
    · exact hsame _
    · exact hsame _
  | breakPacketIn =>
    refine ⟨_, _, rfl, rfl, fun h hbreak => ⟨h.breakNext, fun hgo => ?_⟩⟩
    exact absurd hgo (by rw [hbreak trivial]; exact Bool.false_ne_true)
  | setWatchpoint id =>
    refine ⟨_, _, rfl, rfl, fun h hbreak => ⟨h.breakNext, fun hgo => ?_⟩⟩
    exact absurd hgo (by rw [hbreak trivial]; exact Bool.false_ne_true)
  | removePacketIn =>
    rw [requestDispatch]
    split
    · exact hsame _
    · refine ⟨_, _, rfl, rfl, fun h _ => ⟨h.breakNext, fun hgo => ?_⟩⟩
      exact ⟨(h.noBreaks hgo).1, rfl, h.breakNext, (h.noBreaks hgo).2.watchpoints⟩
  | stopPacketIn => exact ⟨_, _, rfl, rfl, fun h _ => hflags _ ⟨rfl, rfl, rfl, rfl, rfl, rfl, rfl⟩ h⟩
  | resumePacketIn =>
    rw [requestDispatch]
    split
    · exact hsame _
    · exact ⟨_, _, rfl, rfl, fun h _ => hflags _ ⟨rfl, rfl, rfl, rfl, rfl, rfl, rfl⟩ h⟩
  | filterNotifications ids =>
    exact ⟨_, _, rfl, rfl, fun h _ => hflags _ ⟨rfl, rfl, rfl, rfl, rfl, rfl, rfl⟩ h⟩
  | unsetWatchpoint id =>
    refine ⟨_, _, rfl, rfl, fun h _ => ⟨h.breakNext, fun hgo => ?_⟩⟩
    obtain ⟨hattached, hin, hn, hwatch⟩ := h.noBreaks hgo
    exact ⟨hattached, hin, hn, by rw [hwatch, Finset.erase_empty]⟩
  | reset =>
    refine ⟨_, _, rfl, rfl, fun h _ => ⟨h.breakNext, fun hgo => ?_⟩⟩
    exact ⟨(h.noBreaks hgo).1, noBreaks_resetState h.breakNext⟩
  | attach =>
    rw [requestDispatch, reqAttach]
    split
    · exact hsame _
    · exact ⟨_, _, rfl, rfl, fun h _ => ⟨h.breakNext, fun hgo => absurd hgo Bool.false_ne_true⟩⟩
  | detach =>
    rw [requestDispatch, reqDetach]
    split
    · exact hsame _
    · exact ⟨_, _, rfl, rfl, fun h _ => ⟨h.breakNext, fun _ => ⟨rfl, rfl, h.breakNext, rfl⟩⟩⟩

end DebuggerNN

namespace DebuggerThreads

variable {s s' : DebuggerThreads} {act : DebuggerAct}

/-! ## The discipline -/

/-- A `CONTINUE` has no reply yet. -/
def ContinueUnanswered (s : DebuggerThreads) : Prop :=
  s.debugger.replyReady = false ∧ s.debugger.breakNext = false ∧
    (s.phase = .waiting ∨ s.phase = .numbered .continue_ ∨ ∃ reqId, s.phase = .cleared .continue_ reqId)

/-- The condition on a step.  Break conditions are set while the packets are held back; a change
of the configuration finds no break condition when it ends because no client is attached, and otherwise ends
while a `CONTINUE` of a client that has detached has no reply yet. -/
def Allowed (s : DebuggerThreads) : DebuggerAct → Prop
  | .dispatch => ∀ req, s.phase = .numbered req → req.SetsBreak → s.debugger.canContinue = false
  | .configChange =>
    if s.debugger.attached then s.debugger.canContinue = false else s.debugger.NoBreaks
  | .configResume =>
    s.debugger.canContinue = true → s.debugger.attached = false ∧ s.ContinueUnanswered
  | _ => True

/-- The step runs `reset_state`, or ends a change of the configuration. -/
def Resets (s : DebuggerThreads) : DebuggerAct → Prop
  | .dispatch => s.phase = .numbered .reset ∨ s.phase = .numbered .attach ∧ s.debugger.attached = false ∨
      s.phase = .numbered .detach ∧ s.debugger.attached = true
  | .configChange => s.debugger.attached = false ∨ s.debugger.canContinue = true
  | .configResume => True
  | _ => False

/-- The request thread can send one reply, whatever the other threads do. -/
def Answers (s : DebuggerThreads) : Prop :=
  ∃ (acts : List DebuggerAct) (t : DebuggerThreads) (rep : Reply), (∀ act ∈ acts, act.OfRequest) ∧
    acts.foldlM step s = .ok t ∧ t.phase = .idle ∧ t.sent = s.sent ++ [rep]

/-- What the client and the packets can rely on. -/
structure Disciplined (s : DebuggerThreads) : Prop where
  /-- The assertion about the reply does not fail in the next step. -/
  assertion : ∀ act, s.Allowed act → Avoids (· = .replyReady) (s.step act)
  /-- Every request but the one that is handled has had its reply. -/
  replies : s.sent.length + (if s.phase = .idle then 0 else 1) = s.received
  /-- Whatever the other threads do, the request thread can go on and send one reply. -/
  answers : s.phase ≠ .idle → s.Answers
  /-- No packet goes on between two requests of an attached client. -/
  held : s.debugger.attached = true → s.phase = .idle → s.debugger.canContinue = false ∧
    ∀ act : DebuggerAct, act.OfPacket → s.step act = .error .blocked
  /-- Nothing is pending after a reset. -/
  resets : ∀ act t, s.Allowed act → s.Resets act → s.step act = .ok t → t.debugger.NoBreaks

/-- **The invariant**: the debugger is as it is between two requests, except while a `CONTINUE` or a `NEXT`
has no reply yet. -/
structure Inv (s : DebuggerThreads) : Prop where
  held : s.phase = .waiting ∧ s.debugger.replyReady = false ∨ s.debugger.Held
  answered : ∀ req, (s.phase = .numbered req ∨ ∃ reqId, s.phase = .cleared req reqId) →
    s.debugger.replyReady = true → req = .continue_ ∧ s.debugger.canContinue = true
  stored : s.debugger.replyReady = true → s.debugger.repStorage.isSome
  replies : s.sent.length + (if s.phase = .idle then 0 else 1) = s.received

theorem inv_start : ({} : DebuggerThreads).Inv :=
  ⟨.inr ⟨rfl, fun _ => ⟨rfl, rfl, rfl, rfl⟩⟩, fun _ _ hready => absurd hready Bool.false_ne_true,
    fun hready => absurd hready Bool.false_ne_true, rfl⟩

theorem Inv.held_of_ne (h : s.Inv) (hphase : s.phase ≠ .waiting) : s.debugger.Held :=
  h.held.resolve_left fun hwait => hphase hwait.1

/-- The request that is handled is the one without a reply. -/
theorem Inv.replies_of_ne (h : s.Inv) (hphase : s.phase ≠ .idle) : s.sent.length + 1 = s.received := by
  have hreplies := h.replies
  rwa [if_neg hphase] at hreplies

theorem Inv.held_of_ready (h : s.Inv) (hready : s.debugger.replyReady = true) : s.debugger.Held :=
  h.held.resolve_left fun hwait => by rw [hready] at hwait; cases hwait.2

/-! ### Packets -/

theorem step_of_packet (hact : act.OfPacket) :
    s.step act = (packetStep s.debugger act).map fun d => { s with debugger := d } := by
  have hreq : act.OfRequest = false := by cases act <;> first | rfl | cases hact
  rw [step, hreq, if_neg Bool.false_ne_true, if_pos hact]
  cases packetStep s.debugger act <;> rfl

theorem Inv.not_ready (h : s.Inv) (hbreaks : ¬ s.debugger.NoBreaks) (hgo : s.debugger.canContinue = true) :
    s.phase = .waiting ∧ s.debugger.replyReady = false :=
  h.held.resolve_right fun hheld => hbreaks (hheld.noBreaks hgo).2

theorem Inv.avoids_packetStep (h : s.Inv) (act : DebuggerAct) :
    Avoids (· = .replyReady) (packetStep s.debugger act) := by
  have houtcome := DebuggerNN.packetStep_outcome s.debugger act
  generalize DebuggerThreads.packetStep s.debugger act = res at houtcome ⊢
  cases houtcome with
  | failed he => exact he
  | passed hsame => trivial
  | notified hbreaks hgo hsame =>
    rw [DebuggerNN.avoids_reply]
    exact hsame.replyReady.trans (h.not_ready hbreaks hgo).2

theorem Inv.packetStep (h : s.Inv) {d : DebuggerNN} (hstep : packetStep s.debugger act = .ok d) :
    ({ s with debugger := d } : DebuggerThreads).Inv := by
  have houtcome := DebuggerNN.packetStep_outcome s.debugger act
  rw [hstep] at houtcome
  generalize hres : (.ok d : Except Halt DebuggerNN) = res at houtcome
  cases houtcome with
  | failed he => cases hres
  | passed hsame =>
    cases hres
    refine ⟨?_, fun req hphase hready => ?_, fun hready => ?_, h.replies⟩
    · rcases h.held with ⟨hphase, hready⟩ | hheld
      · exact .inl ⟨hphase, hsame.replyReady.trans hready⟩
      · exact .inr (hsame.held hheld)
    · obtain ⟨hreq, hgo⟩ := h.answered req hphase (hsame.replyReady.symm.trans hready)
      exact ⟨hreq, hsame.canContinue.trans hgo⟩
    · rw [hsame.repStorage]
      exact h.stored (hsame.replyReady.symm.trans hready)
  | notified hbreaks hgo hsame =>
    obtain ⟨hphase, -⟩ := h.not_ready hbreaks hgo
    refine ⟨.inr (DebuggerNN.Held.of_reply (DebuggerNN.held_hold _) hres.symm), fun req hreq => ?_, ?_,
      h.replies⟩
    · rcases hreq with hreq | ⟨reqId, hreq⟩ <;> exact absurd (hphase.symm.trans hreq) (by simp)
    · obtain ⟨-, rfl⟩ := DebuggerNN.reply_eq_ok.mp hres.symm
      exact fun _ => rfl

/-! ### Requests -/

theorem Inv.ready_eq_false (h : s.Inv) {req : Request} (hphase : s.phase = .numbered req)
    (hreq : req ≠ .continue_) : s.debugger.replyReady = false := by
  by_contra hready
  exact hreq (h.answered req (.inl hphase) (by simpa using hready)).1

/-- A reply leaves a state in which the request thread can go on. -/
theorem Inv.of_reply (h : s.Inv) {d d' : DebuggerNN} {rep : Reply} {phase : RequestPhase} (hheld : d.Held)
    (hreply : d.reply rep = .ok d') (hphase : phase = .waiting) (hold : s.phase ≠ .idle) :
    ({ s with debugger := d', phase } : DebuggerThreads).Inv := by
  refine ⟨.inr (hheld.of_reply hreply), fun req hreq => ?_, fun _ => ?_, ?_⟩
  · rcases hreq with hreq | ⟨reqId, hreq⟩ <;> exact absurd (hphase.symm.trans hreq) (by simp)
  · obtain ⟨-, rfl⟩ := DebuggerNN.reply_eq_ok.mp hreply
    rfl
  · rw [if_neg (by rw [hphase]; simp)]
    exact h.replies_of_ne hold

/-- A request is handled. -/
theorem Inv.dispatch (h : s.Inv) (hallowed : s.Allowed .dispatch) {req : Request}
    (hphase : s.phase = .numbered req) :
    ∃ d, s.debugger.requestDispatch req = .ok d ∧
      ({ s with debugger := d, phase := .waiting } : DebuggerThreads).Inv := by
  have hheld : s.debugger.Held := h.held_of_ne (by rw [hphase]; simp)
  have hidle : s.phase ≠ .idle := by rw [hphase]; simp
  have hreplies := h.replies_of_ne hidle
  have hanswered : ∀ req', (RequestPhase.waiting = .numbered req' ∨
      ∃ reqId, RequestPhase.waiting = .cleared req' reqId) → False := by
    rintro req' (hreq | ⟨reqId, hreq⟩) <;> cases hreq
  rcases eq_or_ne req .continue_ with rfl | hcontinue
  · refine ⟨_, rfl, ?_, fun req' hreq' => absurd hreq' (hanswered req'), h.stored, hreplies⟩
    cases hready : s.debugger.replyReady with
    | false => exact .inl ⟨rfl, rfl⟩
    | true =>
      -- a change of the configuration has answered it, and nothing is pending
      obtain ⟨-, hgo⟩ := h.answered _ (.inl hphase) hready
      obtain ⟨hattached, hbreaks⟩ := hheld.noBreaks hgo
      exact .inr ⟨hheld.breakNext, fun _ => ⟨hattached, hbreaks.1, hbreaks.2, hbreaks.3⟩⟩
  rcases eq_or_ne req .next with rfl | hnext
  · have hready := h.ready_eq_false hphase hcontinue
    exact ⟨_, rfl, .inl ⟨rfl, hready⟩, fun req' hreq' => absurd hreq' (hanswered req'), h.stored,
      hreplies⟩
  · obtain ⟨d₁, rep, hdispatch, hready, hheld₁⟩ := s.debugger.requestDispatch_reply hcontinue hnext
    obtain ⟨d, hreply, -, -⟩ :=
      DebuggerNN.exists_reply (hready.trans (h.ready_eq_false hphase hcontinue)) rep
    exact ⟨_, hdispatch.trans hreply, h.of_reply (hheld₁ hheld (hallowed req hphase)) hreply rfl hidle⟩

/-- The time of a request is up. -/
theorem Inv.timeout (h : s.Inv) (hphase : s.phase = .waiting) (hready : s.debugger.replyReady = false) :
    ∃ d, s.debugger.hold.sendKeepAlive = .ok d ∧ ({ s with debugger := d } : DebuggerThreads).Inv := by
  obtain ⟨d, hreply, -, -⟩ := DebuggerNN.exists_reply (d := s.debugger.hold) hready _
  exact ⟨d, hreply, h.of_reply (DebuggerNN.held_hold _) hreply hphase (by rw [hphase]; simp)⟩

/-- **Step lemma** of the request thread. -/
theorem Inv.requestIn (h : s.Inv) (hallowed : s.Allowed act) :
    Avoids (· = .replyReady) (s.requestIn act) ∧ ∀ s', s.requestIn act = .ok s' → s'.Inv := by
  have hblocked : Avoids (· = Halt.replyReady) (.error .blocked : Except Halt DebuggerThreads) ∧
      ∀ s', (.error .blocked : Except Halt DebuggerThreads) = .ok s' → s'.Inv :=
    ⟨by simp, fun _ h => by cases h⟩
  have hok {t : DebuggerThreads} (ht : t.Inv) : Avoids (· = Halt.replyReady) (.ok t) ∧
      ∀ s', (.ok t : Except Halt DebuggerThreads) = .ok s' → s'.Inv :=
    ⟨trivial, fun s' hs' => Except.ok.inj hs' ▸ ht⟩
  cases act with
  | receive req reqId =>
    rw [DebuggerThreads.requestIn]
    split
    next hphase =>
      refine hok ⟨.inr (h.held_of_ne (by rw [hphase]; simp)), fun _ hreq => ?_, h.stored, ?_⟩
      · rcases hreq with hreq | ⟨_, hreq⟩ <;> cases hreq
      · have hreplies := h.replies
        rw [if_pos hphase] at hreplies
        rw [if_neg (by simp)]
        exact congrArg (· + 1) hreplies
    next => exact hblocked
  | clear =>
    rw [DebuggerThreads.requestIn]
    split
    next req reqId hphase =>
      have hheld := h.held_of_ne (by rw [hphase]; simp)
      refine hok ⟨.inr ⟨hheld.breakNext, fun hgo => ?_⟩, fun _ _ hready => absurd hready Bool.false_ne_true,
        fun hready => absurd hready Bool.false_ne_true, ?_⟩
      · obtain ⟨hattached, hbreaks⟩ := hheld.noBreaks hgo
        exact ⟨hattached, hbreaks.1, hbreaks.2, hbreaks.3⟩
      · rw [if_neg (by simp)]
        exact h.replies_of_ne (by rw [hphase]; simp)
    next => exact hblocked
  | number =>
    rw [DebuggerThreads.requestIn]
    split
    next req reqId hphase =>
      have hheld := h.held_of_ne (by rw [hphase]; simp)
      refine hok ⟨.inr ⟨hheld.breakNext, fun hgo => ?_⟩, fun req' hreq' hready => ?_, h.stored, ?_⟩
      · obtain ⟨hattached, hbreaks⟩ := hheld.noBreaks hgo
        exact ⟨hattached, hbreaks.1, hbreaks.2, hbreaks.3⟩
      · rcases hreq' with hreq' | ⟨_, hreq'⟩ <;> cases hreq'
        exact h.answered req (.inr ⟨reqId, hphase⟩) hready
      · rw [if_neg (by simp)]
        exact h.replies_of_ne (by rw [hphase]; simp)
    next => exact hblocked
  | dispatch =>
    rw [DebuggerThreads.requestIn]
    split
    next req hphase =>
      obtain ⟨d, hdispatch, hinv⟩ := h.dispatch hallowed hphase
      rw [hdispatch]
      exact hok hinv
    next => exact hblocked
  | timeout =>
    rw [DebuggerThreads.requestIn]
    split
    next hwait =>
      obtain ⟨d, hsend, hinv⟩ := h.timeout hwait.1 hwait.2
      rw [hsend]
      exact hok hinv
    next => exact hblocked
  | send =>
    rw [DebuggerThreads.requestIn]
    split
    next hsend =>
      obtain ⟨hphase, hready⟩ := hsend
      refine hok ⟨.inr (h.held_of_ready hready), fun _ hreq => ?_, h.stored, ?_⟩
      · rcases hreq with hreq | ⟨_, hreq⟩ <;> cases hreq
      · obtain ⟨rep, hrep⟩ := Option.isSome_iff_exists.mp (h.stored hready)
        rw [if_pos rfl, hrep, List.length_append]
        exact h.replies_of_ne (by rw [hphase]; simp)
    next => exact hblocked
  | _ => exact hblocked

/-! ### Changes of the configuration -/

/-- A change of the configuration ends, for a client that has detached and continues. -/
theorem Inv.configChange (h : s.Inv) (hgo : s.debugger.canContinue = true)
    (hattached : s.debugger.attached = false) (hcontinue : s.ContinueUnanswered) (n : ℕ) :
    ∃ d, s.debugger.configChange = .ok d ∧ d.NoBreaks ∧
      ({ s with debugger := d, waitingChanges := n } : DebuggerThreads).Inv := by
  obtain ⟨hready, hnext, hphase⟩ := hcontinue
  have hbreaks : s.debugger.resetState.NoBreaks := DebuggerNN.noBreaks_resetState hnext
  obtain ⟨d, hreply, -, hrep⟩ := DebuggerNN.exists_reply (d := s.debugger.resetState) hready _
  have hheld : s.debugger.resetState.Held := ⟨hnext, fun _ => ⟨hattached, hbreaks⟩⟩
  refine ⟨d, hreply, hbreaks.of_reply hreply, .inr (hheld.of_reply hreply), fun req hreq _ => ⟨?_, ?_⟩,
    fun _ => hrep, h.replies⟩
  swap
  · obtain ⟨-, rfl⟩ := DebuggerNN.reply_eq_ok.mp hreply
    exact hgo
  rcases hphase with hphase | hphase | ⟨reqId, hphase⟩ <;> rcases hreq with hreq | ⟨reqId', hreq⟩ <;>
    cases hphase.symm.trans hreq <;> rfl

theorem step_of_request (hact : act.OfRequest) : s.step act = s.requestIn act := by
  rw [step, if_pos hact]

/-- **Step lemma** of the threads that change the configuration. -/
theorem Inv.configStep (h : s.Inv) (hallowed : s.Allowed act) :
    Avoids (· = .replyReady) (s.configStep act) ∧
      ∀ s', s.configStep act = .ok s' → s'.Inv ∧ (s.Resets act → s'.debugger.NoBreaks) := by
  cases act with
  | configChange =>
    rw [DebuggerThreads.configStep]
    cases hattached : s.debugger.attached with
    | false =>
      replace hallowed : if s.debugger.attached then _ else _ := hallowed
      rw [hattached, if_neg Bool.false_ne_true] at hallowed
      rw [Bool.not_false, if_pos rfl]
      exact ⟨trivial, fun s' hs' => Except.ok.inj hs' ▸ ⟨h, fun _ => hallowed⟩⟩
    | true =>
      replace hallowed : if s.debugger.attached then _ else _ := hallowed
      rw [hattached, if_pos rfl] at hallowed
      rw [Bool.not_true, if_neg Bool.false_ne_true, hallowed, Bool.not_false, if_pos rfl]
      refine ⟨trivial, fun s' hs' => ?_⟩
      cases hs'
      refine ⟨⟨h.held, h.answered, h.stored, h.replies⟩, ?_⟩
      rintro (hfalse | hgo)
      · rw [hattached] at hfalse
        cases hfalse
      · rw [hallowed] at hgo
        cases hgo
  | configResume =>
    rw [DebuggerThreads.configStep]
    split
    next hresume =>
      obtain ⟨hattached, hcontinue⟩ := hallowed hresume.2
      obtain ⟨d, hchange, hbreaks, hinv⟩ :=
        h.configChange hresume.2 hattached hcontinue (s.waitingChanges - 1)
      rw [hchange]
      exact ⟨trivial, fun s' hs' => Except.ok.inj hs' ▸ ⟨hinv, fun _ => hbreaks⟩⟩
    next => exact ⟨by simp, fun _ h => by cases h⟩
  | _ => exact ⟨by simp [DebuggerThreads.configStep], fun _ h => by cases h⟩

/-- **Step lemma**, of any thread. -/
theorem Inv.step (h : s.Inv) (hallowed : s.Allowed act) :
    Avoids (· = .replyReady) (s.step act) ∧ ∀ s', s.step act = .ok s' → s'.Inv := by
  rw [DebuggerThreads.step]
  split
  · exact h.requestIn hallowed
  split
  next hact =>
    rw [avoids_bind]
    refine ⟨⟨h.avoids_packetStep act, fun _ _ => trivial⟩, fun s' hs' => ?_⟩
    obtain ⟨d, hd, hs'⟩ := bind_eq_ok.mp hs'
    cases hs'
    exact h.packetStep hd
  next => exact ⟨(h.configStep hallowed).1, fun s' hs' => ((h.configStep hallowed).2 s' hs').1⟩

/-! ### Replies to come -/

theorem Answers.cons (hact : act.OfRequest) (hstep : s.step act = .ok s') (hsent : s'.sent = s.sent)
    (h : s'.Answers) : s.Answers := by
  obtain ⟨acts, t, rep, hacts, hrun, hphase, ht⟩ := h
  refine ⟨act :: acts, t, rep, ?_, ?_, hphase, hsent ▸ ht⟩
  · intro act' hact'
    rcases List.mem_cons.mp hact' with rfl | hact'
    · exact hact
    · exact hacts act' hact'
  · rw [List.foldlM_cons, hstep]
    exact hrun

theorem answers_of_ready (hphase : s.phase = .waiting) (hready : s.debugger.replyReady = true)
    (hstored : s.debugger.repStorage.isSome) : s.Answers := by
  obtain ⟨rep, hrep⟩ := Option.isSome_iff_exists.mp hstored
  refine ⟨[.send], { s with phase := .idle, sent := s.sent ++ [rep] }, rep, ?_, ?_, rfl, rfl⟩
  · intro act hact
    rw [List.mem_singleton.mp hact]
    rfl
  · rw [List.foldlM_cons, step_of_request rfl, requestIn, if_pos ⟨hphase, hready⟩, hrep]
    rfl

theorem answers_of_waiting (hphase : s.phase = .waiting)
    (hstored : s.debugger.replyReady = true → s.debugger.repStorage.isSome) : s.Answers := by
  cases hready : s.debugger.replyReady with
  | true => exact answers_of_ready hphase hready (hstored hready)
  | false =>
    obtain ⟨d, hreply, hready', hrep⟩ := DebuggerNN.exists_reply (d := s.debugger.hold) hready _
    have htimeout : s.step .timeout = .ok { s with debugger := d } := by
      rw [step_of_request rfl, requestIn, if_pos ⟨hphase, hready⟩, DebuggerNN.sendKeepAlive, hreply]
      rfl
    exact .cons rfl htimeout rfl (answers_of_ready hphase hready' hrep)

theorem answers_of_numbered {req : Request} (hphase : s.phase = .numbered req)
    (hready : s.debugger.replyReady = true → req = .continue_)
    (hstored : s.debugger.replyReady = true → s.debugger.repStorage.isSome) : s.Answers := by
  have hstep {d : DebuggerNN} (hdispatch : s.debugger.requestDispatch req = .ok d) :
      s.step .dispatch = .ok { s with debugger := d, phase := .waiting } := by
    rw [step_of_request rfl, requestIn, hphase]
    dsimp only
    rw [hdispatch]
    rfl
  rcases eq_or_ne req .continue_ with rfl | hcontinue
  · exact .cons rfl (hstep rfl) rfl (answers_of_waiting rfl hstored)
  rcases eq_or_ne req .next with rfl | hnext
  · exact .cons rfl (hstep rfl) rfl (answers_of_waiting rfl hstored)
  · obtain ⟨d₁, rep, hdispatch, hready₁, -⟩ := s.debugger.requestDispatch_reply hcontinue hnext
    have hnone : s.debugger.replyReady = false := by
      by_contra hreply
      exact hcontinue (hready (by simpa using hreply))
    obtain ⟨d, hreply, hready', hrep⟩ := DebuggerNN.exists_reply (hready₁.trans hnone) rep
    exact .cons rfl (hstep (hdispatch.trans hreply)) rfl (answers_of_ready rfl hready' hrep)

/-- The request thread answers, whichever phase it is in. -/
theorem Inv.answers (h : s.Inv) (hphase : s.phase ≠ .idle) : s.Answers := by
  cases hp : s.phase with
  | idle => exact absurd hp hphase
  | received req reqId =>
    have hclear : s.step .clear = .ok { s with
        debugger := { s.debugger with replyReady := false }, phase := .cleared req reqId } := by
      rw [step_of_request rfl, DebuggerThreads.requestIn, hp]
    have hnumber {t : DebuggerThreads} (ht : t.phase = .cleared req reqId) : t.step .number = .ok { t with
        debugger := { t.debugger with reqId }, phase := .numbered req } := by
      rw [step_of_request rfl, DebuggerThreads.requestIn, ht]
    refine .cons rfl hclear rfl (.cons rfl (hnumber rfl) rfl (answers_of_numbered rfl ?_ ?_))
    · exact fun hready => absurd hready Bool.false_ne_true
    · exact fun hready => absurd hready Bool.false_ne_true
  | cleared req reqId =>
    have hnumber : s.step .number = .ok { s with
        debugger := { s.debugger with reqId }, phase := .numbered req } := by
      rw [step_of_request rfl, DebuggerThreads.requestIn, hp]
    refine .cons rfl hnumber rfl (answers_of_numbered rfl (fun hready => ?_) h.stored)
    exact (h.answered req (.inr ⟨reqId, hp⟩) hready).1
  | numbered req => exact answers_of_numbered hp (fun hready => (h.answered req (.inl hp) hready).1) h.stored
  | waiting => exact answers_of_waiting hp h.stored

/-- No break condition is pending after a reset. -/
theorem Inv.resets (h : s.Inv) (hallowed : s.Allowed act) (hresets : s.Resets act)
    (hstep : s.step act = .ok s') : s'.debugger.NoBreaks := by
  have hconfig (hreq : act.OfRequest = false) (hpacket : act.OfPacket = false) :
      s'.debugger.NoBreaks := by
    rw [DebuggerThreads.step, hreq, hpacket, if_neg Bool.false_ne_true, if_neg Bool.false_ne_true] at hstep
    exact ((h.configStep hallowed).2 s' hstep).2 hresets
  cases act with
  | configChange => exact hconfig rfl rfl
  | configResume => exact hconfig rfl rfl
  | dispatch =>
    have hdispatch {req : Request} {d : DebuggerNN} {rep : Reply} (hphase : s.phase = .numbered req)
        (hreply : s.debugger.requestDispatch req = d.reply rep) (hbreaks : d.NoBreaks) :
        s'.debugger.NoBreaks := by
      rw [step_of_request rfl, DebuggerThreads.requestIn, hphase] at hstep
      obtain ⟨d', hd', hstep⟩ := bind_eq_ok.mp hstep
      cases hstep
      exact hbreaks.of_reply (hreply.symm.trans hd')
    rcases hresets with hphase | ⟨hphase, hattached⟩ | ⟨hphase, hattached⟩
    · have hnext := (h.held_of_ne (by rw [hphase]; simp)).breakNext
      exact hdispatch hphase rfl (DebuggerNN.noBreaks_resetState hnext)
    · have hnext := (h.held_of_ne (by rw [hphase]; simp)).breakNext
      have hattach : s.debugger.requestDispatch .attach =
          { s.debugger with attached := true, canContinue := false }.resetState.sendRepStatus 0 0 := by
        rw [DebuggerNN.requestDispatch, DebuggerNN.reqAttach, hattached, if_neg Bool.false_ne_true]
      exact hdispatch hphase hattach ⟨rfl, hnext, rfl⟩
    · have hnext := (h.held_of_ne (by rw [hphase]; simp)).breakNext
      have hdetach : s.debugger.requestDispatch .detach = { { s.debugger with attached := false }.resetState with
          canContinue := true }.sendRepStatus 0 0 := by
        rw [DebuggerNN.requestDispatch, DebuggerNN.reqDetach, hattached, Bool.not_true,
          if_neg Bool.false_ne_true]
      exact hdispatch hphase hdetach ⟨rfl, hnext, rfl⟩
  | _ => cases hresets

/-- **The discipline** of a state that has the invariant. -/
theorem Inv.disciplined (h : s.Inv) : s.Disciplined where
  assertion act hallowed := (h.step hallowed).1
  replies := h.replies
  answers hphase := h.answers hphase
  held hattached hphase := by
    have hstop : s.debugger.canContinue = false := by
      by_contra hgo
      have hheld := h.held_of_ne (by rw [hphase]; simp)
      have hdetached := (hheld.noBreaks (by simpa using hgo)).1
      exact absurd (hattached.symm.trans hdetached) (by decide)
    refine ⟨hstop, fun act hact => ?_⟩
    rw [step_of_packet hact, DebuggerNN.packetStep_blocked hstop hact]
    rfl
  resets act t hallowed hresets hstep := h.resets hallowed hresets hstep

end DebuggerThreads

/-- **Every state of every run** whose steps meet the condition. -/
theorem debugger_disciplined {acts : List DebuggerAct} {s : DebuggerThreads}
    (hacts : StepsMeet DebuggerThreads.step DebuggerThreads.Allowed {} acts)
    (hrun : acts.foldlM DebuggerThreads.step {} = .ok s) : s.Disciplined := by
  have hinv : s.Inv := foldlM_invariant_of_meets
    (fun s op s' h hallowed hstep => (h.step hallowed).2 s' hstep) DebuggerThreads.inv_start hacts hrun
  exact hinv.disciplined

/-- A client attaches and asks for a step. -/
def attachAndNext : List DebuggerAct :=
  [.receive .attach 1, .clear, .number, .dispatch, .send, .receive .next 2, .clear, .number, .dispatch]

theorem debugger_disciplined_next : ∃ s : DebuggerThreads,
    (attachAndNext ++ [DebuggerAct.packetIn ⟨0, 0⟩ 3, .send]).foldlM DebuggerThreads.step {} = .ok s ∧
    s.sent = [.status 0 0 0, .packetIn 2 ⟨0, 0⟩ 3] ∧ s.Disciplined := by
  have hacts : StepsMeet DebuggerThreads.step DebuggerThreads.Allowed {}
      (attachAndNext ++ [.packetIn ⟨0, 0⟩ 3, .send]) := by
    refine ⟨trivial, fun s₁ h₁ => ?_⟩
    cases h₁
    refine ⟨trivial, fun s₂ h₂ => ?_⟩
    cases h₂
    refine ⟨trivial, fun s₃ h₃ => ?_⟩
    cases h₃
    refine ⟨fun req hreq hbreak => (by cases hreq; exact hbreak.elim), fun s₄ h₄ => ?_⟩
    cases h₄
    refine ⟨trivial, fun s₅ h₅ => ?_⟩
    cases h₅
    refine ⟨trivial, fun s₆ h₆ => ?_⟩
    cases h₆
    refine ⟨trivial, fun s₇ h₇ => ?_⟩
    cases h₇
    refine ⟨trivial, fun s₈ h₈ => ?_⟩
    cases h₈
    exact ⟨fun req hreq hbreak => (by cases hreq; exact hbreak.elim), fun _ _ => ⟨trivial, fun _ _ =>
      ⟨trivial, fun _ _ => trivial⟩⟩⟩
  exact ⟨_, rfl, rfl, debugger_disciplined hacts rfl⟩

/-- A step that the client has asked for is overtaken by a change of the configuration: the client has its reply,
but the packets go on, and the next one fails the assertion. -/
theorem next_overtaken : ∃ s : DebuggerThreads,
    (attachAndNext ++ [DebuggerAct.configChange, .send]).foldlM DebuggerThreads.step {} = .ok s ∧
    s.sent = [.status 0 0 0, .status 0 999 0] ∧ s.phase = .idle ∧ s.debugger.attached = true ∧
    s.debugger.canContinue = true ∧ s.debugger.breakNext = true ∧
    s.step (.packetIn ⟨0, 0⟩ 3) = .error .replyReady :=
  ⟨_, rfl, rfl, rfl, rfl, rfl, rfl, rfl⟩

end Bm
