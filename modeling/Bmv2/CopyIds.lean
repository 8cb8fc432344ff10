/-
# Copy ids

`CopyIdGenerator` (`packet.h`, `packet.cpp`) numbers the clones of a packet with
counters that all packet ids of one slot share.  Each call is a loop around
`compare_exchange_weak`; `CopyIdState.step` interleaves the load, the exchanges
and the packet operations of any number of threads.

* `Linearizes` is about the counters: they end as if the calls had run one after
  another, in the order of their exchanges;
* `Counts` relates the counter of a slot to the live packets in it.
-/
import Bmv2.Lib.Runs

namespace Bm

/-- `CopyIdGenerator::Cntr`: the highest copy id given out and the number of packets beyond the
first one, in 16 bits each. -/
structure Cntr where
  max : ℕ := 0
  num : ℕ := 0
  deriving DecidableEq

/-- The calls that change a counter. -/
inductive CopyIdCall where
  | addOne
  | removeOne
  | reset
  deriving DecidableEq

namespace CopyIdCall

/-- The body of the retry loop: it computes `new_cntr` from `old_cntr`.  `remove_one` leaves
`new_cntr.num` as it is when the count is zero. -/
def body : CopyIdCall → Cntr → Cntr → Cntr
  | addOne, old, _ => ⟨(old.max + 1) % 2 ^ 16, (old.num + 1) % 2 ^ 16⟩
  | removeOne, old, new => if old.num = 0 then { new with max := 0 } else ⟨old.max, old.num - 1⟩
  | reset, _, _ => ⟨0, 0⟩

/-- The call as one atomic step: the body runs once, on a fresh `new_cntr`. -/
def atomic (call : CopyIdCall) (old : Cntr) : Cntr := call.body old {}

@[simp] theorem atomic_addOne (old : Cntr) :
    addOne.atomic old = ⟨(old.max + 1) % 2 ^ 16, (old.num + 1) % 2 ^ 16⟩ := rfl

@[simp] theorem atomic_removeOne (old : Cntr) :
    removeOne.atomic old = if old.num = 0 then {} else ⟨old.max, old.num - 1⟩ := rfl

end CopyIdCall

/-- `packet_id % W`. -/
def copyIdSlot (packetId : ℕ) : ℕ := packetId % 4096

/-- What a call is made for: on its own, to clone a packet, or to destroy one. -/
inductive CopyIdUse where
  | plain
  | clone (source : ℕ × ℕ)
  | destroy (packet : ℕ × ℕ)
  deriving DecidableEq

/-- A thread: idle, or at the exchange of a call with the local `old_cntr` and `new_cntr`. -/
inductive CopyIdThread where
  | idle
  | calling (use : CopyIdUse) (call : CopyIdCall) (packetId : ℕ) (old new : Cntr)
  deriving DecidableEq

/-- The counters, the live packets (each a packet id and a copy id), the threads, and the calls
that have taken effect, with the `max` that each wrote (for `add_one`, what it returned). -/
structure CopyIdState where
  arr : ℕ → Cntr
  live : List (ℕ × ℕ)
  threads : List CopyIdThread
  log : List (CopyIdCall × ℕ × ℕ)

/-- The atomic steps: a load begins a call, an exchange ends it or sends it round the loop. -/
inductive CopyIdEvent where
  | create (packetId : ℕ)
  | call (thread : ℕ) (call : CopyIdCall) (packetId : ℕ)
  | clone (thread : ℕ) (source : ℕ × ℕ)
  | destroy (thread : ℕ) (packet : ℕ × ℕ)
  | exchange (thread : ℕ) (spurious : Bool)
  deriving DecidableEq

/-- The packet that a thread works on. -/
def CopyIdThread.held : CopyIdThread → Option (ℕ × ℕ)
  | calling (.clone source) _ _ _ _ => some source
  | calling (.destroy packet) _ _ _ _ => some packet
  | _ => none

/-- The packet that a thread destroys. -/
def CopyIdThread.destroyed : CopyIdThread → Option (ℕ × ℕ)
  | calling (.destroy packet) _ _ _ _ => some packet
  | _ => none

/-- The live packets once the call made for `use` has written `new`: a clone is live from then
on, a destroyed packet no more. -/
def CopyIdUse.finish (new : Cntr) (live : List (ℕ × ℕ)) : CopyIdUse → List (ℕ × ℕ)
  | plain => live
  | clone source => (source.1, new.max) :: live
  | destroy packet => live.erase packet

namespace CopyIdState

/-- No packet, no call, `n` threads. -/
def start (n : ℕ) : CopyIdState := ⟨fun _ => {}, [], List.replicate n .idle, []⟩

/-- The load of a call, and the first pass through the body. -/
def begin (s : CopyIdState) (thread : ℕ) (use : CopyIdUse) (call : CopyIdCall)
    (packetId : ℕ) : CopyIdState :=
  let old := s.arr (copyIdSlot packetId)
  { s with threads := s.threads.set thread (.calling use call packetId old (call.body old {})) }

/-- One step; `none` when the thread is not at it, or the packet is not there to be used. -/
def step (s : CopyIdState) : CopyIdEvent → Option CopyIdState
  | .create packetId => some { s with live := (packetId, 0) :: s.live }
  | .call thread call packetId =>
      if s.threads[thread]? = some .idle then some (s.begin thread .plain call packetId) else none
  | .clone thread source =>
      if s.threads[thread]? = some .idle ∧ source ∈ s.live ∧
          (∀ th ∈ s.threads, th.destroyed ≠ some source) then
        some (s.begin thread (.clone source) .addOne source.1)
      else none
  | .destroy thread packet =>
      if s.threads[thread]? = some .idle ∧ packet ∈ s.live ∧
          (∀ th ∈ s.threads, th.held ≠ some packet) then
        some (s.begin thread (.destroy packet) .removeOne packet.1)
      else none
  | .exchange thread spurious =>
      match s.threads[thread]? with
      | some (.calling use call packetId old new) =>
          let current := s.arr (copyIdSlot packetId)
          if !spurious && current = old then
            some { s with
              arr := Function.update s.arr (copyIdSlot packetId) new
              live := use.finish new s.live
              threads := s.threads.set thread .idle
              log := s.log ++ [(call, packetId, new.max)] }
          else
            some { s with
              threads := s.threads.set thread
                (.calling use call packetId current (call.body current new)) }
      | _ => none

/-- `remove_one` does not write the count of an earlier pass: when the exchange that ends it found
the count at zero, `new_cntr.num` is zero as well. -/
def NoStaleCount (s : CopyIdState) : CopyIdEvent → Prop
  | .exchange thread spurious => spurious = false → ∀ use packetId old new,
      s.threads[thread]? = some (.calling use .removeOne packetId old new) →
        s.arr (copyIdSlot packetId) = old → old.num = 0 → new.num = 0
  | _ => True

/-- A new packet finds no live packet in its slot, and a clone does not take the last copy id. -/
def SlotSuffices (s : CopyIdState) : CopyIdEvent → Prop
  | .create packetId => ∀ p ∈ s.live, copyIdSlot p.1 ≠ copyIdSlot packetId
  | .exchange thread spurious => spurious = false → ∀ source packetId old new,
      s.threads[thread]? = some (.calling (.clone source) .addOne packetId old new) →
        s.arr (copyIdSlot packetId) = old → old.max + 1 < 2 ^ 16
  | _ => True

/-- Run the calls one after another; `none` when one writes another `max` than was recorded. -/
def replay : (ℕ → Cntr) → List (CopyIdCall × ℕ × ℕ) → Option (ℕ → Cntr)
  | arr, [] => some arr
  | arr, (call, packetId, result) :: log =>
      let new := call.atomic (arr (copyIdSlot packetId))
      if new.max = result then replay (Function.update arr (copyIdSlot packetId) new) log else none

/-! ## Calls take effect as one step -/

theorem replay_append (arr : ℕ → Cntr) (log log' : List (CopyIdCall × ℕ × ℕ)) :
    replay arr (log ++ log') = (replay arr log).bind fun arr' => replay arr' log' := by
  induction log generalizing arr with
  | nil => rfl
  | cons e log ih =>
    obtain ⟨call, packetId, result⟩ := e
    rw [List.cons_append, replay, replay]
    split
    · exact ih _
    · rfl

/-- What a thread at an exchange has computed: what the call writes, or in the branch of
`remove_one` that keeps `new_cntr.num`, at least its `max`. -/
def Prepared (call : CopyIdCall) (old new : Cntr) : Prop :=
  new = call.atomic old ∨ (call = .removeOne ∧ old.num = 0 ∧ new.max = 0)

theorem prepared_body (call : CopyIdCall) (old new : Cntr) :
    Prepared call old (call.body old new) := by
  cases call with
  | addOne => exact .inl rfl
  | reset => exact .inl rfl
  | removeOne =>
    by_cases hzero : old.num = 0
    · exact .inr ⟨rfl, hzero, by simp [CopyIdCall.body, hzero]⟩
    · exact .inl (by simp [CopyIdCall.body, hzero])

/-- Without a stale count the thread writes what the call writes. -/
theorem Prepared.eq {call : CopyIdCall} {old new : Cntr} (h : Prepared call old new)
    (hstale : call = .removeOne → old.num = 0 → new.num = 0) : new = call.atomic old := by
  rcases h with h | ⟨rfl, hzero, hmax⟩
  · exact h
  · have hnum := hstale rfl hzero
    rw [CopyIdCall.atomic_removeOne, if_pos hzero]
    obtain ⟨max, num⟩ := new
    obtain rfl : max = 0 := hmax
    obtain rfl : num = 0 := hnum
    rfl

/-- The counters are those of the finished calls, run one after another. -/
structure Linearizes (s : CopyIdState) : Prop where
  arr : replay (fun _ => {}) s.log = some s.arr
  prepared : ∀ use call packetId old new,
    CopyIdThread.calling use call packetId old new ∈ s.threads → Prepared call old new

variable {s s' : CopyIdState} {event : CopyIdEvent}

theorem Linearizes.begin (h : s.Linearizes) (thread : ℕ) (use : CopyIdUse) (call : CopyIdCall)
    (packetId : ℕ) : (s.begin thread use call packetId).Linearizes where
  arr := h.arr
  prepared := by
    intro use' call' packetId' old new hmem
    rcases List.mem_or_eq_of_mem_set hmem with hmem | heq
    · exact h.prepared _ _ _ _ _ hmem
    · obtain ⟨-, rfl, -, rfl, rfl⟩ := (CopyIdThread.calling.injEq ..).mp heq
      exact prepared_body _ _ _

/-- The two outcomes of an exchange. -/
theorem step_exchange {thread : ℕ} {spurious : Bool} (h : s.step (.exchange thread spurious) = some s') :
    ∃ use call packetId old new,
      s.threads[thread]? = some (.calling use call packetId old new) ∧
      ((spurious = false ∧ s.arr (copyIdSlot packetId) = old ∧ s' = { s with
          arr := Function.update s.arr (copyIdSlot packetId) new
          live := use.finish new s.live
          threads := s.threads.set thread .idle
          log := s.log ++ [(call, packetId, new.max)] }) ∨
        s' = { s with threads := s.threads.set thread (.calling use call packetId
          (s.arr (copyIdSlot packetId)) (call.body (s.arr (copyIdSlot packetId)) new)) }) := by
  unfold step at h
  dsimp only at h
  split at h
  next use call packetId old new hthread =>
    refine ⟨use, call, packetId, old, new, hthread, ?_⟩
    split at h
    · next hdone =>
      obtain ⟨hspurious, hold⟩ : spurious = false ∧ s.arr (copyIdSlot packetId) = old := by
        simpa using hdone
      exact .inl ⟨hspurious, hold, (Option.some.inj h).symm⟩
    · exact .inr (Option.some.inj h).symm
  next => simp at h

/-- **Step lemma** for the counters. -/
theorem Linearizes.step (h : s.Linearizes) (hstale : s.NoStaleCount event)
    (hstep : s.step event = some s') : s'.Linearizes := by
  cases event with
  | create packetId =>
    obtain rfl := Option.some.inj hstep
    exact ⟨h.arr, h.prepared⟩
  | call thread call packetId =>
    obtain ⟨-, hbegin⟩ := Option.ite_none_right_eq_some.mp hstep
    exact Option.some.inj hbegin ▸ h.begin thread .plain call packetId
  | clone thread source =>
    obtain ⟨-, hbegin⟩ := Option.ite_none_right_eq_some.mp hstep
    exact Option.some.inj hbegin ▸ h.begin thread (.clone source) .addOne source.1
  | destroy thread packet =>
    obtain ⟨-, hbegin⟩ := Option.ite_none_right_eq_some.mp hstep
    exact Option.some.inj hbegin ▸ h.begin thread (.destroy packet) .removeOne packet.1
  | exchange thread spurious =>
    obtain ⟨use, call, packetId, old, new, hthread, ⟨hspurious, hold, rfl⟩ | rfl⟩ :=
      step_exchange hstep
    · have hnew : new = call.atomic (s.arr (copyIdSlot packetId)) := by
        rw [hold]
        refine (h.prepared _ _ _ _ _ (List.mem_of_getElem? hthread)).eq fun hcall hzero => ?_
        subst hcall
        exact hstale hspurious use packetId old new hthread hold hzero
      refine ⟨?_, fun use' call' packetId' old' new' hmem => ?_⟩
      · rw [replay_append, h.arr, hnew]
        simp [replay]
      · rcases List.mem_or_eq_of_mem_set hmem with hmem | heq
        · exact h.prepared _ _ _ _ _ hmem
        · simp at heq
    · refine ⟨h.arr, fun use' call' packetId' old' new' hmem => ?_⟩
      rcases List.mem_or_eq_of_mem_set hmem with hmem | heq
      · exact h.prepared _ _ _ _ _ hmem
      · obtain ⟨-, rfl, -, rfl, rfl⟩ := (CopyIdThread.calling.injEq ..).mp heq
        exact prepared_body _ _ _

end CopyIdState

/-! ## The counter of a slot and the packets in it -/

/-- The counter of a slot that holds the given live packets, all of one packet id. -/
structure Counts (c : Cntr) (packets : List (ℕ × ℕ)) : Prop where
  same : ∀ p ∈ packets, ∀ q ∈ packets, p.1 = q.1
  le : ∀ p ∈ packets, p.2 ≤ c.max
  empty : packets = [] → c = {}
  num : packets ≠ [] → c.num + 1 = packets.length

namespace Counts

variable {c : Cntr} {packets : List (ℕ × ℕ)}

theorem create (h : Counts c []) (packetId : ℕ) : Counts c [(packetId, 0)] := by
  obtain rfl := h.empty rfl
  refine ⟨?_, ?_, by simp, by simp⟩
  · intro p hp q hq
    rw [List.mem_singleton] at hp hq
    rw [hp, hq]
  · intro p hp
    rw [List.mem_singleton.mp hp]

/-- Packets of one packet id that are all different have different copy ids, so there are at
most `max + 1` of them. -/
theorem length_le (h : Counts c packets) (hnodup : packets.Nodup) :
    packets.length ≤ c.max + 1 := by
  have hids : (packets.map Prod.snd).Nodup :=
    hnodup.map_on fun p hp q hq heq => Prod.ext (h.same p hp q hq) heq
  have hsub : packets.map Prod.snd ⊆ List.range (c.max + 1) := by
    intro i hi
    obtain ⟨p, hp, rfl⟩ := List.mem_map.mp hi
    exact List.mem_range.mpr (Nat.lt_succ_of_le (h.le p hp))
  simpa using (hids.subperm hsub).length_le

theorem clone (h : Counts c packets) (hnodup : packets.Nodup) {source : ℕ × ℕ}
    (hsource : source ∈ packets) (hmax : c.max + 1 < 2 ^ 16) :
    Counts (CopyIdCall.addOne.atomic c) ((source.1, c.max + 1) :: packets) := by
  have hne : packets ≠ [] := List.ne_nil_of_mem hsource
  have hnum := h.num hne
  have hlen := h.length_le hnodup
  rw [CopyIdCall.atomic_addOne, Nat.mod_eq_of_lt hmax, Nat.mod_eq_of_lt (by omega)]
  refine ⟨?_, ?_, by simp, fun _ => by simp [hnum]⟩
  · have hsame : ∀ p ∈ (source.1, c.max + 1) :: packets, p.1 = source.1 := by
      intro p hp
      rcases List.mem_cons.mp hp with rfl | hp
      · rfl
      · exact h.same p hp source hsource
    exact fun p hp q hq => (hsame p hp).trans (hsame q hq).symm
  · intro p hp
    rcases List.mem_cons.mp hp with rfl | hp
    · exact le_rfl
    · exact (h.le p hp).trans (Nat.le_succ _)

theorem new_notMem (h : Counts c packets) (packetId : ℕ) : (packetId, c.max + 1) ∉ packets :=
  fun hmem => absurd (h.le _ hmem) (by simp)

theorem destroy (h : Counts c packets) {packet : ℕ × ℕ} (hpacket : packet ∈ packets) :
    Counts (CopyIdCall.removeOne.atomic c) (packets.erase packet) := by
  have hnum := h.num (List.ne_nil_of_mem hpacket)
  have hlen := List.length_erase_of_mem hpacket
  rw [CopyIdCall.atomic_removeOne]
  by_cases hlast : c.num = 0
  · -- the last packet of the slot
    have hnil : packets.erase packet = [] := List.length_eq_zero_iff.mp (by omega)
    rw [if_pos hlast, hnil]
    exact ⟨by simp, by simp, fun _ => rfl, fun hne => absurd rfl hne⟩
  · rw [if_neg hlast]
    have hne : packets.erase packet ≠ [] := by
      intro hnil
      rw [hnil, List.length_nil] at hlen
      omega
    refine ⟨fun p hp q hq => h.same p (List.mem_of_mem_erase hp) q (List.mem_of_mem_erase hq),
      fun p hp => h.le p (List.mem_of_mem_erase hp), fun hnil => absurd hnil hne, fun _ => ?_⟩
    show c.num - 1 + 1 = _
    omega

end Counts

namespace CopyIdState

/-- The live packets of a slot. -/
def inSlot (live : List (ℕ × ℕ)) (slot : ℕ) : List (ℕ × ℕ) :=
  live.filter fun p => copyIdSlot p.1 = slot

theorem mem_inSlot {live : List (ℕ × ℕ)} {slot : ℕ} {p : ℕ × ℕ} :
    p ∈ inSlot live slot ↔ p ∈ live ∧ copyIdSlot p.1 = slot := by
  simp [inSlot]

theorem inSlot_cons (live : List (ℕ × ℕ)) (p : ℕ × ℕ) (slot : ℕ) :
    inSlot (p :: live) slot =
      if copyIdSlot p.1 = slot then p :: inSlot live slot else inSlot live slot := by
  unfold inSlot
  rw [List.filter_cons]
  simp

theorem inSlot_erase (live : List (ℕ × ℕ)) (p : ℕ × ℕ) (slot : ℕ) :
    inSlot (live.erase p) slot = (inSlot live slot).erase p := List.erase_filter.symm

/-- A call made for a packet: `add_one` to clone it, `remove_one` to destroy it. -/
def WellUsed (use : CopyIdUse) (call : CopyIdCall) (packetId : ℕ) : Prop :=
  match use with
  | .plain => False
  | .clone source => call = .addOne ∧ packetId = source.1
  | .destroy packet => call = .removeOne ∧ packetId = packet.1

/-- A packet that a thread destroys is held by no other thread. -/
def Alone (threads : List CopyIdThread) : Prop :=
  ∀ (i j : ℕ) (th th' : CopyIdThread), threads[i]? = some th → threads[j]? = some th' →
    ∀ p, th.destroyed = some p → th'.held = some p → i = j

/-- What holds along the runs in which the slots suffice. -/
structure Numbered (s : CopyIdState) : Prop where
  linearizes : s.Linearizes
  nodup : s.live.Nodup
  counts : ∀ slot, Counts (s.arr slot) (inSlot s.live slot)
  used : ∀ use call packetId old new,
    CopyIdThread.calling use call packetId old new ∈ s.threads → WellUsed use call packetId
  held : ∀ th ∈ s.threads, ∀ p, th.held = some p → p ∈ s.live
  alone : Alone s.threads

/-- The events of the packets themselves: no call on the generator besides. -/
def ofPackets : CopyIdEvent → Bool
  | .call .. => false
  | _ => true

theorem held_of_destroyed {th : CopyIdThread} {p : ℕ × ℕ} (h : th.destroyed = some p) :
    th.held = some p := by
  unfold CopyIdThread.destroyed at h
  split at h
  · exact h
  · simp at h

/-- The locals of a call do not matter for what its thread holds. -/
theorem held_locals (use : CopyIdUse) (call : CopyIdCall) (packetId : ℕ) (old new old' new' : Cntr) :
    (CopyIdThread.calling use call packetId old new).held =
      (CopyIdThread.calling use call packetId old' new').held := by
  cases use
  all_goals rfl

theorem destroyed_locals (use : CopyIdUse) (call : CopyIdCall) (packetId : ℕ)
    (old new old' new' : Cntr) :
    (CopyIdThread.calling use call packetId old new).destroyed =
      (CopyIdThread.calling use call packetId old' new').destroyed := by
  cases use
  all_goals rfl

/-- A thread may take up a packet that the other threads leave to it. -/
theorem Alone.set {threads : List CopyIdThread} {thread : ℕ} {new : CopyIdThread}
    (h : Alone threads)
    (hheld : ∀ j th, j ≠ thread → threads[j]? = some th → ∀ p, new.held = some p →
      th.destroyed ≠ some p)
    (hdestroyed : ∀ j th, j ≠ thread → threads[j]? = some th → ∀ p, new.destroyed = some p →
      th.held ≠ some p) : Alone (threads.set thread new) := by
  intro i j th th' hi hj p hp hp'
  by_cases hit : i = thread
  · by_cases hjt : j = thread
    · exact hit.trans hjt.symm
    · rw [List.getElem?_set_ne (Ne.symm hjt)] at hj
      subst hit
      obtain rfl : new = th := by
        rw [List.getElem?_set] at hi
        simp at hi
        exact hi.2
      exact absurd hp' (hdestroyed j th' hjt hj p hp)
  · rw [List.getElem?_set_ne (Ne.symm hit)] at hi
    by_cases hjt : j = thread
    · subst hjt
      obtain rfl : new = th' := by
        rw [List.getElem?_set] at hj
        simp at hj
        exact hj.2
      exact absurd hp (hheld i th hit hi p hp')
    · rw [List.getElem?_set_ne (Ne.symm hjt)] at hj
      exact h i j th th' hi hj p hp hp'

variable {s s' : CopyIdState} {event : CopyIdEvent}

/-- A call that begins for a live packet. -/
theorem Numbered.begin (h : s.Numbered) {thread packetId : ℕ} {use : CopyIdUse} {call : CopyIdCall}
    {packet : ℕ × ℕ} (hlive : packet ∈ s.live) (hused : WellUsed use call packetId)
    (huse : use = .clone packet ∧ (∀ th ∈ s.threads, th.destroyed ≠ some packet) ∨
      use = .destroy packet ∧ ∀ th ∈ s.threads, th.held ≠ some packet) :
    (s.begin thread use call packetId).Numbered := by
  have hpacket (old new : Cntr) : (CopyIdThread.calling use call packetId old new).held = some packet := by
    rcases huse with ⟨rfl, -⟩ | ⟨rfl, -⟩
    · rfl
    · rfl
  refine ⟨h.linearizes.begin thread use call packetId, h.nodup, h.counts, ?_, ?_, ?_⟩
  · intro use' call' packetId' old new hmem
    rcases List.mem_or_eq_of_mem_set hmem with hmem | heq
    · exact h.used _ _ _ _ _ hmem
    · obtain ⟨rfl, rfl, rfl, -, -⟩ := (CopyIdThread.calling.injEq ..).mp heq
      exact hused
  · intro th hmem p hp
    rcases List.mem_or_eq_of_mem_set hmem with hmem | rfl
    · exact h.held th hmem p hp
    · obtain rfl : packet = p := Option.some.inj ((hpacket _ _).symm.trans hp)
      exact hlive
  · refine h.alone.set (fun j th hj hth p hp hp' => ?_) fun j th hj hth p hp hp' => ?_
    · obtain rfl : packet = p := Option.some.inj ((hpacket _ _).symm.trans hp)
      rcases huse with ⟨-, hfree⟩ | ⟨-, hfree⟩
      · exact hfree th (List.mem_of_getElem? hth) hp'
      · exact hfree th (List.mem_of_getElem? hth) (held_of_destroyed hp')
    · obtain rfl : packet = p :=
        Option.some.inj ((hpacket _ _).symm.trans (held_of_destroyed hp))
      rcases huse with ⟨rfl, -⟩ | ⟨-, hfree⟩
      · simp [CopyIdThread.destroyed] at hp
      · exact hfree th (List.mem_of_getElem? hth) hp'

/-- A packet under a new packet id. -/
theorem Numbered.create (h : s.Numbered) {packetId : ℕ}
    (hfree : ∀ p ∈ s.live, copyIdSlot p.1 ≠ copyIdSlot packetId) :
    ({ s with live := (packetId, 0) :: s.live } : CopyIdState).Numbered := by
  have hnot : (packetId, 0) ∉ s.live := fun hmem => hfree _ hmem rfl
  refine ⟨⟨h.linearizes.arr, h.linearizes.prepared⟩, List.nodup_cons.mpr ⟨hnot, h.nodup⟩, ?_,
    h.used, fun th hth p hp => List.mem_cons_of_mem _ (h.held th hth p hp), h.alone⟩
  intro slot
  have hcounts := h.counts slot
  show Counts (s.arr slot) (inSlot ((packetId, 0) :: s.live) slot)
  rw [inSlot_cons]
  by_cases hslot : copyIdSlot packetId = slot
  · have hempty : inSlot s.live slot = [] := by
      refine List.eq_nil_iff_forall_not_mem.mpr fun p hp => ?_
      obtain ⟨hlive, hp⟩ := mem_inSlot.mp hp
      exact hfree p hlive (hp.trans hslot.symm)
    rw [if_pos hslot, hempty]
    rw [hempty] at hcounts
    exact hcounts.create packetId
  · rw [if_neg hslot]
    exact hcounts

/-- The counters and the live packets after the call of a thread took effect. -/
theorem Numbered.counts_finish (h : s.Numbered) {use : CopyIdUse} {call : CopyIdCall}
    {packetId : ℕ} (hused : WellUsed use call packetId)
    (hlive : ∀ p, use = .clone p ∨ use = .destroy p → p ∈ s.live)
    (hmax : ∀ p, use = .clone p → (s.arr (copyIdSlot packetId)).max + 1 < 2 ^ 16) :
    (use.finish (call.atomic (s.arr (copyIdSlot packetId))) s.live).Nodup ∧
      ∀ slot, Counts
        (Function.update s.arr (copyIdSlot packetId) (call.atomic (s.arr (copyIdSlot packetId))) slot)
        (inSlot (use.finish (call.atomic (s.arr (copyIdSlot packetId))) s.live) slot) := by
  have hslots := h.counts (copyIdSlot packetId)
  cases use with
  | plain => exact hused.elim
  | clone source =>
    obtain ⟨rfl, rfl⟩ := hused
    have hfits := hmax source rfl
    have hmem : source ∈ inSlot s.live (copyIdSlot source.1) :=
      mem_inSlot.mpr ⟨hlive source (.inl rfl), rfl⟩
    have hnew : (source.1, (s.arr (copyIdSlot source.1)).max + 1) ∉ s.live := fun hin =>
      hslots.new_notMem source.1 (mem_inSlot.mpr ⟨hin, rfl⟩)
    have hfinish : CopyIdUse.finish (CopyIdCall.addOne.atomic (s.arr (copyIdSlot source.1))) s.live
        (.clone source) = (source.1, (s.arr (copyIdSlot source.1)).max + 1) :: s.live := by
      simpa [CopyIdUse.finish] using hfits
    rw [hfinish]
    refine ⟨List.nodup_cons.mpr ⟨hnew, h.nodup⟩, fun slot => ?_⟩
    rw [inSlot_cons]
    by_cases hslot : slot = copyIdSlot source.1
    · subst hslot
      rw [Function.update_self, if_pos rfl]
      exact hslots.clone (h.nodup.filter _) hmem hfits
    · rw [Function.update_of_ne hslot, if_neg (Ne.symm hslot)]
      exact h.counts slot
  | destroy packet =>
    obtain ⟨rfl, rfl⟩ := hused
    have hmem : packet ∈ inSlot s.live (copyIdSlot packet.1) :=
      mem_inSlot.mpr ⟨hlive packet (.inr rfl), rfl⟩
    refine ⟨h.nodup.erase packet, fun slot => ?_⟩
    show Counts _ (inSlot (s.live.erase packet) slot)
    rw [inSlot_erase]
    by_cases hslot : slot = copyIdSlot packet.1
    · subst hslot
      rw [Function.update_self]
      exact hslots.destroy hmem
    · have hout : packet ∉ inSlot s.live slot := fun hin => hslot (mem_inSlot.mp hin).2.symm
      rw [Function.update_of_ne hslot, List.erase_of_not_mem hout]
      exact h.counts slot

/-- **Step lemma** for the copy ids. -/
theorem Numbered.step (h : s.Numbered) (hpackets : ofPackets event = true)
    (hstale : s.NoStaleCount event) (hslot : s.SlotSuffices event)
    (hstep : s.step event = some s') : s'.Numbered := by
  have hlin := h.linearizes.step hstale hstep
  cases event with
  | create packetId =>
    obtain rfl := Option.some.inj hstep
    exact h.create hslot
  | call thread call packetId => simp [ofPackets] at hpackets
  | clone thread source =>
    obtain ⟨⟨-, hlive, hfree⟩, hbegin⟩ := Option.ite_none_right_eq_some.mp hstep
    exact Option.some.inj hbegin ▸ h.begin hlive ⟨rfl, rfl⟩ (.inl ⟨rfl, hfree⟩)
  | destroy thread packet =>
    obtain ⟨⟨-, hlive, hfree⟩, hbegin⟩ := Option.ite_none_right_eq_some.mp hstep
    exact Option.some.inj hbegin ▸ h.begin hlive ⟨rfl, rfl⟩ (.inr ⟨rfl, hfree⟩)
  | exchange thread spurious =>
    obtain ⟨use, call, packetId, old, new, hthread, ⟨hspurious, hold, rfl⟩ | rfl⟩ :=
      step_exchange hstep
    · have hmem := List.mem_of_getElem? hthread
      have hused := h.used _ _ _ _ _ hmem
      have hnew : new = call.atomic (s.arr (copyIdSlot packetId)) := by
        rw [hold]
        refine (h.linearizes.prepared _ _ _ _ _ hmem).eq fun hcall hzero => ?_
        subst hcall
        exact hstale hspurious use packetId old new hthread hold hzero
      have hlive (p : ℕ × ℕ) (hp : use = .clone p ∨ use = .destroy p) : p ∈ s.live := by
        refine h.held _ hmem p ?_
        rcases hp with rfl | rfl
        · rfl
        · rfl
      have hmax (p : ℕ × ℕ) (hp : use = .clone p) :
          (s.arr (copyIdSlot packetId)).max + 1 < 2 ^ 16 := by
        subst hp
        obtain ⟨rfl, -⟩ := hused
        rw [hold]
        exact hslot hspurious p packetId old new hthread hold
      obtain ⟨hnodup, hcounts⟩ := h.counts_finish hused hlive hmax
      rw [← hnew] at hnodup hcounts
      refine ⟨hlin, hnodup, hcounts, fun use' call' packetId' old' new' hmem' => ?_,
        fun th hth p hp => ?_, h.alone.set (by simp [CopyIdThread.held])
          (by simp [CopyIdThread.destroyed])⟩
      · rcases List.mem_or_eq_of_mem_set hmem' with hmem' | heq
        · exact h.used _ _ _ _ _ hmem'
        · simp at heq
      · -- what the other threads hold is still live
        obtain ⟨j, hj⟩ := List.mem_iff_getElem?.mp hth
        by_cases hjt : j = thread
        · subst hjt
          obtain rfl : CopyIdThread.idle = th := by
            rw [List.getElem?_set] at hj
            simp at hj
            exact hj.2
          simp [CopyIdThread.held] at hp
        · rw [List.getElem?_set_ne (Ne.symm hjt)] at hj
          have hin : p ∈ s.live := h.held th (List.mem_of_getElem? hj) p hp
          cases use with
          | plain => exact hin
          | clone source => exact List.mem_cons_of_mem _ hin
          | destroy packet =>
            have hne : p ≠ packet := by
              rintro rfl
              exact hjt (h.alone thread j _ th hthread hj p rfl hp).symm
            exact (List.mem_erase_of_ne hne).mpr hin
    · -- another pass of the same call
      have hmem := List.mem_of_getElem? hthread
      refine ⟨hlin, h.nodup, h.counts, fun use' call' packetId' old' new' hmem' => ?_,
        fun th hth p hp => ?_, h.alone.set (fun j th hj hth p hp hp' => ?_)
          fun j th hj hth p hp hp' => ?_⟩
      · rcases List.mem_or_eq_of_mem_set hmem' with hmem' | heq
        · exact h.used _ _ _ _ _ hmem'
        · obtain ⟨rfl, rfl, rfl, -, -⟩ := (CopyIdThread.calling.injEq ..).mp heq
          exact h.used _ _ _ _ _ hmem
      · rcases List.mem_or_eq_of_mem_set hth with hth | rfl
        · exact h.held th hth p hp
        · exact h.held _ hmem p ((held_locals ..).trans hp)
      · exact hj (h.alone j thread th _ hth hthread p hp'
          ((held_locals ..).trans hp))
      · exact hj (h.alone thread j _ th hthread hth p
          ((destroyed_locals ..).trans hp) hp').symm

theorem Linearizes.start (n : ℕ) : (start n).Linearizes where
  arr := rfl
  prepared := by
    intro use call packetId old new hmem
    simpa using List.eq_of_mem_replicate hmem

theorem Numbered.start (n : ℕ) : (start n).Numbered where
  linearizes := .start n
  nodup := List.nodup_nil
  counts := fun _ => ⟨by simp [CopyIdState.start, inSlot], by simp [CopyIdState.start, inSlot],
    fun _ => rfl, fun h => absurd rfl h⟩
  used := by
    intro use call packetId old new hmem
    simpa using List.eq_of_mem_replicate hmem
  held := by
    intro th hmem p hp
    rw [List.eq_of_mem_replicate hmem] at hp
    simp [CopyIdThread.held] at hp
  alone := by
    intro i j th th' hi hj p hp
    rw [List.eq_of_mem_replicate (List.mem_of_getElem? hi)] at hp
    simp [CopyIdThread.destroyed] at hp

end CopyIdState

/-- **Copy ids.**  In every run of any number of threads whose exchanges write no stale count,
the counters end as if the calls had run one after another, each with the result it had; and if
no call is made besides those of the packets and the slots suffice, live packets of one packet
id have different copy ids. -/
theorem copyIds_of_slotSuffices (n : ℕ) (events : List CopyIdEvent) (s : CopyIdState)
    (hrun : runFrom CopyIdState.step (.start n) events = some s) :
    (RunMeets CopyIdState.step CopyIdState.NoStaleCount (.start n) events →
      CopyIdState.replay (fun _ => {}) s.log = some s.arr) ∧
    (RunMeets CopyIdState.step
        (fun s event => CopyIdState.NoStaleCount s event ∧ CopyIdState.SlotSuffices s event)
        (.start n) events →
      (∀ event ∈ events, CopyIdState.ofPackets event = true) →
      s.live.Pairwise fun p q => p.1 = q.1 → p.2 ≠ q.2) := by
  constructor
  · intro hmeets
    exact (runFrom_invariant_of_meets (fun s event s' h hc hs => CopyIdState.Linearizes.step h hc hs)
      (CopyIdState.Linearizes.start n) hmeets hrun).arr
  · intro hmeets hpackets
    have hnumbered : s.Numbered := runFrom_invariant_of_meets
      (fun s event s' h hc hs => CopyIdState.Numbered.step h hc.1 hc.2.1 hc.2.2 hs)
      (CopyIdState.Numbered.start n) (hmeets.and_forall hpackets) hrun
    exact hnumbered.nodup.imp fun hne hid hcopy => hne (Prod.ext hid hcopy)

/-- A packet and its clone. -/
theorem copyIds_of_slotSuffices_clone :
    ∃ s, runFrom CopyIdState.step (.start 1) [.create 0, .clone 0 (0, 0), .exchange 0 false] = some s ∧
      s.live = [(0, 1), (0, 0)] ∧ CopyIdState.replay (fun _ => {}) s.log = some s.arr ∧
      s.live.Pairwise fun p q => p.1 = q.1 → p.2 ≠ q.2 := by
  have hmeets : RunMeets CopyIdState.step
      (fun s event => CopyIdState.NoStaleCount s event ∧ CopyIdState.SlotSuffices s event)
      (.start 1) [.create 0, .clone 0 (0, 0), .exchange 0 false] := by
    refine ⟨⟨trivial, fun p hp => absurd hp (List.not_mem_nil)⟩, fun s₁ h₁ => ?_⟩
    cases h₁
    refine ⟨⟨trivial, trivial⟩, fun s₂ h₂ => ?_⟩
    cases h₂
    refine ⟨⟨fun _ use packetId old new h => ?_, fun _ source packetId old new h => ?_⟩,
      fun _ _ => trivial⟩
    · simp [CopyIdState.start, CopyIdState.begin] at h
    · obtain ⟨-, -, rfl, -⟩ : _ ∧ _ ∧ _ ∧ _ := by
        simpa [CopyIdState.start, CopyIdState.begin] using h
      simp
  obtain ⟨hlog, hids⟩ := copyIds_of_slotSuffices 1
    [.create 0, .clone 0 (0, 0), .exchange 0 false] _ rfl
  exact ⟨_, rfl, rfl, hlog (hmeets.imp fun _ _ h => h.1), hids hmeets (by decide)⟩

/-- Two packets that share a slot: destroying the one resets the counter of the other, whose next
clone gets the copy id of a live one.  And a `remove_one` that has to try again leaves a count of
one behind in a slot without packets. -/
theorem copyIds_shared_slot :
    (∃ s, runFrom CopyIdState.step (.start 1)
        [.create 0, .clone 0 (0, 0), .exchange 0 false, .create 4096, .destroy 0 (4096, 0),
          .exchange 0 false, .create 4096, .destroy 0 (4096, 0), .exchange 0 false,
          .clone 0 (0, 0), .exchange 0 false] = some s ∧
      ¬ s.live.Pairwise fun p q => p.1 = q.1 → p.2 ≠ q.2) ∧
    ∃ s, runFrom CopyIdState.step (.start 2)
        [.create 0, .clone 0 (0, 0), .exchange 0 false, .clone 0 (0, 0), .exchange 0 false,
          .destroy 0 (0, 0), .destroy 1 (0, 1), .exchange 1 false, .destroy 1 (0, 2),
          .exchange 1 false, .exchange 0 false, .exchange 0 false] = some s ∧
      CopyIdState.replay (fun _ => {}) s.log ≠ some s.arr := by
  refine ⟨⟨_, rfl, by decide⟩, ⟨_, rfl, fun h => ?_⟩⟩
  have hslot := congrArg (Option.map fun arr => arr 0) h
  revert hslot
  decide

end Bm
