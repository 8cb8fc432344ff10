/-
# Learn lists keep their ledgers

`Tracks` relates a learn list to a ledger: the filter has the pending slots, and `old_buffers` has
the iterators of each buffer with a pending slot.  Every step keeps it when no sample is empty and
every acknowledgement names slots that are pending.
-/
import Bmv2.LearnLedger
import Bmv2.Lib.Simulation

namespace Bm

namespace LearnList

variable (s : LearnList)

/-- The message of the buffer has been sent, or skipped as nobody listens. -/
def Transmitted (b : ℕ) : Prop :=
  b < s.bufferId ∧ (b + 1 = s.bufferId → s.bufferTmp = [] ∨ s.transmit = .sent)

/-- Everything that a list keeps in its ledger, the filter apart. -/
structure Keeps (l : Ledger) : Prop where
  ids : s.deviceId = l.switchId ∧ s.cxtId = l.cxtId ∧ s.listId = l.listId
  current : l.current = s.bufferId
  serials : l.slots.map Slot.serial = List.range l.slots.length
  nodes : s.filterNodes = l.slots.length
  buffer : s.buffer = (l.carried s.bufferId).flatMap Slot.sample
  numSamples : s.numSamples = (l.carried s.bufferId).length
  le : ∀ slot ∈ l.slots, slot.buffer ≤ s.bufferId
  ne_nil : ∀ slot ∈ l.slots, slot.sample ≠ []
  nodup : (l.pending.map Slot.sample).Nodup
  acked : ∀ slot ∈ l.slots, slot.serial ∈ l.acked → s.Transmitted slot.buffer
  acked_lt : ∀ n ∈ l.acked, n < l.slots.length
  tmp : s.bufferTmp ≠ [] → 0 < s.bufferId ∧
    s.bufferTmp = (l.carried (s.bufferId - 1)).flatMap Slot.sample ∧
    s.numSamplesTmp = (l.carried (s.bufferId - 1)).length
  sending : ∀ n, s.transmit = .sending n → s.bufferTmp ≠ [] ∧ n = s.numSamplesTmp
  sent : s.transmit = .sent → s.bufferTmp ≠ []
  notified : ∀ b, l.Notified b → s.Transmitted b
  once : ∀ x, sinceAck x l.history ≤ 1
  since : ∀ x, sinceAck x l.history ≠ 0 →
    ∃ slot ∈ l.pending, slot.sample = x ∧ s.Transmitted slot.buffer

/-- The entry of `old_buffers` for a buffer of the ledger. -/
def entryOf (l : Ledger) (b : ℕ) : Option FilterPtrs :=
  if l.unacked b = [] then none
  else some ⟨(l.unacked b).length, (l.carried b).map Slot.serial⟩

/-- The list and its ledger agree. -/
structure Tracks (l : Ledger) : Prop extends s.Keeps l where
  filter : s.filter = l.pending.map fun slot => (slot.serial, slot.sample)
  old : s.oldBuffers = entryOf l

variable {s} {l : Ledger}

theorem Keeps.serial_inj (h : s.Keeps l) {slot slot' : Slot} (hslot : slot ∈ l.slots)
    (hslot' : slot' ∈ l.slots) (heq : slot.serial = slot'.serial) : slot = slot' := by
  have hnodup : (l.slots.map Slot.serial).Nodup := by
    rw [h.serials]
    exact List.nodup_range
  exact List.inj_on_of_nodup_map hnodup hslot hslot' heq

theorem Keeps.serial_lt (h : s.Keeps l) {slot : Slot} (hslot : slot ∈ l.slots) :
    slot.serial < l.slots.length := by
  have hmem : slot.serial ∈ l.slots.map Slot.serial := List.mem_map_of_mem hslot
  rw [h.serials] at hmem
  exact List.mem_range.mp hmem

theorem Keeps.sample_inj (h : s.Keeps l) {slot slot' : Slot} (hslot : slot ∈ l.pending)
    (hslot' : slot' ∈ l.pending) (heq : slot.sample = slot'.sample) : slot = slot' :=
  List.inj_on_of_nodup_map h.nodup hslot hslot' heq

/-! ## Buffers change hands -/

/-- The buffers that have been transmitted still are after a swap. -/
theorem Transmitted.swapBuffers {b : ℕ} (h : s.Transmitted b) : s.swapBuffers.Transmitted b :=
  ⟨Nat.lt_succ_of_lt h.1, fun hb => absurd h.1 (by have := Nat.succ.inj hb; omega)⟩

/-- **A swap** closes the current buffer. -/
theorem Keeps.swapBuffers (h : s.Keeps l) (hempty : s.bufferTmp = []) :
    s.swapBuffers.Keeps l.close where
  ids := h.ids
  current := congrArg (· + 1) h.current
  serials := h.serials
  nodes := h.nodes
  buffer := by
    have hnone : l.carried (s.bufferId + 1) = [] := by
      apply List.filter_eq_nil_iff.mpr
      intro slot hslot
      have := h.le slot hslot
      simp only [decide_eq_true_eq]
      omega
    show s.bufferTmp = (l.carried (s.bufferId + 1)).flatMap Slot.sample
    rw [hempty, hnone]
    rfl
  numSamples := by
    have hnone : l.carried (s.bufferId + 1) = [] := by
      apply List.filter_eq_nil_iff.mpr
      intro slot hslot
      have := h.le slot hslot
      simp only [decide_eq_true_eq]
      omega
    show 0 = (l.carried (s.bufferId + 1)).length
    rw [hnone]
    rfl
  le slot hslot := Nat.le_succ_of_le (h.le slot hslot)
  ne_nil := h.ne_nil
  nodup := h.nodup
  acked slot hslot hacked := (h.acked slot hslot hacked).swapBuffers
  acked_lt := h.acked_lt
  tmp _ := ⟨Nat.succ_pos _, h.buffer, h.numSamples⟩
  sending n hn := absurd hempty (h.sending n hn).1
  sent hsent := absurd hempty (h.sent hsent)
  notified b hb := (h.notified b hb).swapBuffers
  once := h.once
  since x hx := by
    obtain ⟨slot, hslot, hsample, htransmitted⟩ := h.since x hx
    exact ⟨slot, hslot, hsample, htransmitted.swapBuffers⟩

theorem Tracks.swapBuffers (h : s.Tracks l) (hempty : s.bufferTmp = []) :
    s.swapBuffers.Tracks l.close where
  toKeeps := h.toKeeps.swapBuffers hempty
  filter := h.filter
  old := h.old

theorem Tracks.processFullBuffer (h : s.Tracks l) :
    s.processFullBuffer.Tracks l ∨ s.processFullBuffer.Tracks l.close := by
  unfold LearnList.processFullBuffer
  split
  · exact .inl { h with }
  · rename_i hempty
    exact .inr (h.swapBuffers (List.length_eq_zero_iff.mp (not_not.mp hempty)))

theorem Tracks.setMaxSamples (h : s.Tracks l) (nbSamples : ℕ) :
    (s.setMaxSamples nbSamples).Tracks l ∨ (s.setMaxSamples nbSamples).Tracks l.close := by
  have hset : ({ s with maxSamples := nbSamples } : LearnList).Tracks l := { h with }
  unfold LearnList.setMaxSamples
  dsimp only
  split
  · exact hset.processFullBuffer
  · exact .inl hset

theorem Tracks.wake (h : s.Tracks l) : s.wake.Tracks l ∨ s.wake.Tracks l.close := by
  unfold LearnList.wake
  split
  · rename_i hwake
    have hset : ({ s with blocked := s.blocked - 1 } : LearnList).Tracks l := { h with }
    exact .inr (hset.swapBuffers (List.length_eq_zero_iff.mp hwake.2))
  · exact .inl h

/-! ## The transmit thread -/

theorem Transmitted.of_sent {b : ℕ} (h : s.Transmitted b) :
    ({ s with transmit := .sent } : LearnList).Transmitted b :=
  ⟨h.1, fun _ => .inr rfl⟩

theorem Tracks.setSending (h : s.Tracks l) (hwaiting : s.transmit = .waiting)
    (htmp : s.bufferTmp ≠ []) :
    ({ s with transmit := .sending s.numSamplesTmp } : LearnList).Tracks l := by
  have hkept (b : ℕ) (hb : s.Transmitted b) :
      ({ s with transmit := .sending s.numSamplesTmp } : LearnList).Transmitted b := by
    refine ⟨hb.1, fun hlast => ?_⟩
    rcases hb.2 hlast with hempty | hsent
    · exact absurd hempty htmp
    · rw [hwaiting] at hsent
      cases hsent
  exact { h with
    acked := fun slot hslot hacked => hkept _ (h.acked slot hslot hacked)
    sending := fun n hn => by
      cases hn
      exact ⟨htmp, rfl⟩
    sent := fun hsent => by cases hsent
    notified := fun b hb => hkept b (h.notified b hb)
    since := fun x hx => by
      obtain ⟨slot, hslot, hsample, htransmitted⟩ := h.since x hx
      exact ⟨slot, hslot, hsample, hkept _ htransmitted⟩ }

theorem Keeps.buffer_ne_nil (h : s.Keeps l) (hne : s.numSamples ≠ 0) : s.buffer ≠ [] := by
  intro hempty
  rw [h.buffer, List.flatMap_eq_nil_iff] at hempty
  rw [h.numSamples] at hne
  obtain ⟨slot, hslot⟩ := List.exists_mem_of_length_pos (Nat.pos_of_ne_zero hne)
  exact h.ne_nil slot (Ledger.mem_carried.mp hslot).1 (hempty slot hslot)

theorem Tracks.transmitCheck (h : s.Tracks l) (timedOut : Bool) :
    (s.transmitCheck timedOut).Tracks l ∨ (s.transmitCheck timedOut).Tracks l.close := by
  unfold LearnList.transmitCheck
  split
  · rename_i hwaiting
    split
    · rename_i hempty
      split
      · rename_i htimeout
        have hswap := h.swapBuffers (List.length_eq_zero_iff.mp hempty)
        exact .inr (hswap.setSending hwaiting (h.buffer_ne_nil htimeout.2.1))
      · exact .inl h
    · rename_i hfull
      exact .inl (h.setSending hwaiting fun hempty => hfull (by rw [hempty]; rfl))
  · exact .inl h

/-- The message is skipped when nobody listens. -/
theorem Tracks.skip (h : s.Tracks l) {n : ℕ} (hsending : s.transmit = .sending n) :
    ({ s with transmit := .sent } : LearnList).Tracks l :=
  { h with
    acked := fun slot hslot hacked => (h.acked slot hslot hacked).of_sent
    sending := fun n hn => by cases hn
    sent := fun _ => (h.sending n hsending).1
    notified := fun b hb => (h.notified b hb).of_sent
    since := fun x hx => by
      obtain ⟨slot, hslot, hsample, htransmitted⟩ := h.since x hx
      exact ⟨slot, hslot, hsample, htransmitted.of_sent⟩ }

/-- The buffer of the transmit thread before its message. -/
theorem Keeps.not_transmitted (h : s.Keeps l) {n : ℕ} (hsending : s.transmit = .sending n) :
    ¬ s.Transmitted (s.bufferId - 1) := by
  rintro ⟨hlt, htransmitted⟩
  rcases htransmitted (by omega) with hempty | hsent
  · exact (h.sending n hsending).1 hempty
  · rw [hsending] at hsent
    cases hsent

/-- The slots of a buffer that has not been transmitted are pending. -/
theorem Keeps.pending_of_not_transmitted (h : s.Keeps l) {b : ℕ} (hb : ¬ s.Transmitted b) :
    ∀ slot ∈ l.carried b, slot ∈ l.pending := by
  intro slot hslot
  obtain ⟨hmem, rfl⟩ := Ledger.mem_carried.mp hslot
  exact Ledger.mem_pending.mpr ⟨hmem, fun hacked => hb (h.acked slot hmem hacked)⟩

/-- The samples of such a buffer are distinct. -/
theorem Keeps.nodup_carried (h : s.Keeps l) {b : ℕ} (hb : ¬ s.Transmitted b) :
    ((l.carried b).map Slot.sample).Nodup := by
  have hsub : l.carried b = l.unacked b := by
    refine (List.filter_eq_self.mpr fun slot hslot => ?_).symm
    exact decide_eq_true (Ledger.mem_pending.mp (h.pending_of_not_transmitted hb slot hslot)).2
  have hsublist : (l.unacked b).Sublist l.pending := by
    rw [Ledger.unacked_eq_filter]
    exact List.filter_sublist
  rw [hsub]
  exact h.nodup.sublist (hsublist.map Slot.sample)

/-- **A message** notifies the buffer that has been closed last. -/
theorem Tracks.send (h : s.Tracks l) {n : ℕ} (hsending : s.transmit = .sending n) :
    ({ s with transmit := .sent } : LearnList).Tracks (l.notify (s.bufferId - 1)) := by
  have hnot := h.not_transmitted hsending
  have hskip := h.skip hsending
  obtain ⟨hpos, -, -⟩ := h.tmp (h.sending n hsending).1
  have hsent : ({ s with transmit := .sent } : LearnList).Transmitted (s.bufferId - 1) :=
    ⟨by show s.bufferId - 1 < s.bufferId; omega, fun _ => .inr rfl⟩
  -- a sample of this buffer has not been notified since it was acknowledged
  have hfresh (x : Sample) (hx : x ∈ (l.carried (s.bufferId - 1)).map Slot.sample) :
      sinceAck x l.history = 0 := by
    by_contra hne
    obtain ⟨slot, hslot, rfl⟩ := List.mem_map.mp hx
    obtain ⟨slot', hslot', hsample, htransmitted⟩ := h.since _ hne
    have hpending := h.pending_of_not_transmitted hnot slot hslot
    rw [h.sample_inj hslot' hpending hsample, (Ledger.mem_carried.mp hslot).2] at htransmitted
    exact hnot htransmitted
  exact { hskip with
    notified := by
      rintro b ⟨samples, hb⟩
      rcases List.mem_cons.mp hb with heq | hb
      · cases heq
        exact hsent
      · exact hskip.notified b ⟨samples, hb⟩
    once := fun x => by
      show ((l.carried (s.bufferId - 1)).map Slot.sample).count x + sinceAck x l.history ≤ 1
      by_cases hx : x ∈ (l.carried (s.bufferId - 1)).map Slot.sample
      · rw [hfresh x hx]
        exact List.nodup_iff_count_le_one.mp (h.nodup_carried hnot) x
      · rw [List.count_eq_zero_of_not_mem hx, Nat.zero_add]
        exact h.once x
    since := fun x hne => by
      by_cases hx : x ∈ (l.carried (s.bufferId - 1)).map Slot.sample
      · obtain ⟨slot, hslot, rfl⟩ := List.mem_map.mp hx
        refine ⟨slot, h.pending_of_not_transmitted hnot slot hslot, rfl, ?_⟩
        rw [(Ledger.mem_carried.mp hslot).2]
        exact hsent
      · change ((l.carried (s.bufferId - 1)).map Slot.sample).count x + sinceAck x l.history ≠ 0 at hne
        rw [List.count_eq_zero_of_not_mem hx, Nat.zero_add] at hne
        exact hskip.since x hne }

theorem Tracks.transmitDone (h : s.Tracks l) : s.transmitDone.Tracks l := by
  unfold LearnList.transmitDone
  split
  · have hkept (b : ℕ) (hb : s.Transmitted b) :
        ({ s with transmit := .waiting, bufferTmp := [] } : LearnList).Transmitted b :=
      ⟨hb.1, fun _ => .inl rfl⟩
    exact { h with
      acked := fun slot hslot hacked => hkept _ (h.acked slot hslot hacked)
      tmp := fun hne => absurd rfl hne
      sending := fun n hn => by cases hn
      sent := fun hsent => by cases hsent
      notified := fun b hb => hkept b (h.notified b hb)
      since := fun x hx => by
        obtain ⟨slot, hslot, hsample, htransmitted⟩ := h.since x hx
        exact ⟨slot, hslot, hsample, hkept _ htransmitted⟩ }
  · exact h

/-! ## A sample is learnt -/

theorem entryOf_eq_none {b : ℕ} : entryOf l b = none ↔ l.unacked b = [] := by
  unfold entryOf
  split <;> simp_all

/-- The ledger with one more slot. -/
def withSlot (l : Ledger) (slot : Slot) : Ledger := { l with slots := l.slots ++ [slot] }

theorem pending_withSlot (slot : Slot) (hnew : slot.serial ∉ l.acked) :
    (withSlot l slot).pending = l.pending ++ [slot] := by
  show (l.slots ++ [slot]).filter (·.serial ∉ l.acked) = _
  rw [List.filter_append, Ledger.pending]
  simp [hnew]

theorem carried_withSlot (slot : Slot) (b : ℕ) :
    (withSlot l slot).carried b = l.carried b ++ if slot.buffer = b then [slot] else [] := by
  show (l.slots ++ [slot]).filter (·.buffer = b) = _
  rw [List.filter_append, Ledger.carried]
  congr 1
  rw [List.filter_singleton]
  simp

theorem unacked_withSlot (slot : Slot) (hnew : slot.serial ∉ l.acked) (b : ℕ) :
    (withSlot l slot).unacked b = l.unacked b ++ if slot.buffer = b then [slot] else [] := by
  show ((withSlot l slot).carried b).filter (·.serial ∉ l.acked) = _
  rw [carried_withSlot, List.filter_append, Ledger.unacked]
  congr 1
  split <;> simp [hnew]

/-- Nothing is acknowledged in a buffer that has not been transmitted. -/
theorem Keeps.unacked_eq (h : s.Keeps l) {b : ℕ} (hb : ¬ s.Transmitted b) :
    l.unacked b = l.carried b :=
  List.filter_eq_self.mpr fun slot hslot =>
    decide_eq_true (Ledger.mem_pending.mp (h.pending_of_not_transmitted hb slot hslot)).2

/-- **A sample is recorded** in the current buffer. -/
theorem Tracks.recordSample (h : s.Tracks l) {x : Sample} (hne : x ≠ [])
    (hnew : ∀ slot ∈ l.pending, slot.sample ≠ x) :
    (s.recordSample x).Tracks (withSlot l ⟨l.slots.length, l.current, x⟩) := by
  have hserial : l.slots.length ∉ l.acked := fun hmem => lt_irrefl _ (h.acked_lt _ hmem)
  have hcurrent : ¬ s.Transmitted s.bufferId := fun htransmitted => lt_irrefl _ htransmitted.1
  have hpending := pending_withSlot (l := l) ⟨l.slots.length, l.current, x⟩ hserial
  have hcarried := carried_withSlot (l := l) ⟨l.slots.length, l.current, x⟩
  have hunacked := unacked_withSlot (l := l) ⟨l.slots.length, l.current, x⟩ hserial
  rw [h.current] at hpending hcarried hunacked
  simp only at hcarried hunacked
  have hlast : (withSlot l ⟨l.slots.length, s.bufferId, x⟩).carried s.bufferId =
      l.carried s.bufferId ++ [⟨l.slots.length, s.bufferId, x⟩] := by
    rw [hcarried, if_pos rfl]
  have hmem {slot : Slot} (hslot : slot ∈ l.slots ++ [⟨l.slots.length, s.bufferId, x⟩]) :
      slot ∈ l.slots ∨ slot = ⟨l.slots.length, s.bufferId, x⟩ := by
    simpa using hslot
  rw [h.current]
  exact {
    ids := h.ids
    current := h.current
    serials := by
      show (l.slots ++ [_]).map Slot.serial = List.range (l.slots ++ [_]).length
      rw [List.map_append, h.serials, List.length_append, List.length_singleton, List.range_succ]
      rfl
    nodes := by
      show s.filterNodes + 1 = (l.slots ++ [_]).length
      rw [h.nodes, List.length_append, List.length_singleton]
    buffer := by
      show s.buffer ++ x = _
      rw [show (s.recordSample x).bufferId = s.bufferId from rfl, hlast, List.flatMap_append,
        ← h.buffer]
      simp
    numSamples := by
      show s.numSamples + 1 = _
      rw [show (s.recordSample x).bufferId = s.bufferId from rfl, hlast, List.length_append,
        ← h.numSamples]
      rfl
    le := by
      intro slot hslot
      rcases hmem hslot with hslot | rfl
      · exact h.le slot hslot
      · exact le_refl _
    ne_nil := by
      intro slot hslot
      rcases hmem hslot with hslot | rfl
      · exact h.ne_nil slot hslot
      · exact hne
    nodup := by
      rw [hpending, List.map_append]
      refine List.nodup_append.mpr ⟨h.nodup, List.nodup_singleton _, ?_⟩
      rintro y hy z hz rfl
      obtain ⟨slot, hslot, rfl⟩ := List.mem_map.mp hy
      exact hnew slot hslot (List.mem_singleton.mp hz)
    acked := by
      intro slot hslot hacked
      rcases hmem hslot with hslot | rfl
      · exact h.acked slot hslot hacked
      · exact absurd hacked hserial
    acked_lt := fun n hn => by
      show n < (l.slots ++ [_]).length
      rw [List.length_append]
      exact Nat.lt_add_right _ (h.acked_lt n hn)
    tmp := fun hfull => by
      obtain ⟨hpos, hdata, hnum⟩ := h.tmp hfull
      have hother : (withSlot l ⟨l.slots.length, s.bufferId, x⟩).carried (s.bufferId - 1) =
          l.carried (s.bufferId - 1) := by
        rw [hcarried, if_neg (by omega), List.append_nil]
      refine ⟨hpos, ?_, ?_⟩
      · exact hdata.trans (congrArg (List.flatMap Slot.sample) hother.symm)
      · exact hnum.trans (congrArg List.length hother.symm)
    sending := h.sending
    sent := h.sent
    notified := h.notified
    once := h.once
    since := fun y hy => by
      obtain ⟨slot, hslot, hsample, htransmitted⟩ := h.since y hy
      refine ⟨slot, ?_, hsample, htransmitted⟩
      rw [hpending]
      exact List.mem_append_left _ hslot
    filter := by
      show s.filter ++ [(s.filterNodes, x)] = _
      rw [hpending, List.map_append, ← h.filter, h.nodes]
      rfl
    old := by
      funext b
      show Function.update s.oldBuffers s.bufferId _ b = _
      by_cases hb : b = s.bufferId
      · subst hb
        -- the entry counts all slots of the current buffer
        have hentry : (s.oldBuffers s.bufferId).getD {} =
            ⟨(l.carried s.bufferId).length, (l.carried s.bufferId).map Slot.serial⟩ := by
          rw [h.old, entryOf, h.unacked_eq hcurrent]
          split
          · rename_i hnil
            rw [hnil]
            rfl
          · rfl
        rw [Function.update_self, hentry, entryOf, hunacked, hlast, h.unacked_eq hcurrent,
          if_pos rfl, if_neg (by simp), List.length_append, List.map_append, h.nodes]
        rfl
      · rw [Function.update_of_ne hb, h.old, entryOf, entryOf, hunacked, hcarried,
          if_neg (Ne.symm hb), List.append_nil, List.append_nil] }

theorem Tracks.addSample (h : s.Tracks l) {x : Sample} (hne : x ≠ []) :
    (s.addSample x).Tracks (l.learn x) ∨ (s.addSample x).Tracks (l.learn x).close := by
  have hfind : s.filter.any (·.2 = x) = l.pending.any (·.sample = x) := by
    rw [h.filter, List.any_map]
    rfl
  unfold LearnList.addSample Ledger.learn
  rw [hfind]
  split
  · exact .inl h
  · rename_i hnone
    have hrecord := h.recordSample hne (x := x) (by simpa using hnone)
    dsimp only
    split
    · exact .inl hrecord
    · split
      · exact hrecord.processFullBuffer
      · exact .inl hrecord

/-! ## Acknowledgements -/

/-- The filter without a node. -/
theorem eraseNode_map {slots : List Slot} {slot : Slot} (hslot : slot ∈ slots) :
    eraseNode (slots.map fun slot => (slot.serial, slot.sample)) slot.serial =
      some ((slots.filter (·.serial ≠ slot.serial)).map fun slot => (slot.serial, slot.sample)) := by
  rw [eraseNode, if_pos, List.filter_map]
  · rfl
  · rw [List.any_map]
    exact List.any_eq_true.mpr ⟨slot, hslot, by simp⟩

theorem Keeps.ackSlot (h : s.Keeps l) {slot : Slot} (hslot : slot ∈ l.slots)
    (htransmitted : s.Transmitted slot.buffer) : s.Keeps (l.ackSlot slot) := by
  by_cases hmem : slot.serial ∈ l.acked
  · rw [Ledger.ackSlot_of_mem hmem]
    exact h
  have hpending : slot ∈ l.pending := Ledger.mem_pending.mpr ⟨hslot, hmem⟩
  have hhistory : (l.ackSlot slot).history = .acked slot.sample :: l.history := by
    rw [Ledger.ackSlot, if_neg hmem]
  exact {
    ids := by
      rw [Ledger.ackSlot, if_neg hmem]
      exact h.ids
    current := (Ledger.current_ackSlot slot).trans h.current
    serials := by rw [Ledger.slots_ackSlot, h.serials]
    nodes := by rw [Ledger.slots_ackSlot, h.nodes]
    buffer := by rw [Ledger.carried_ackSlot, h.buffer]
    numSamples := by rw [Ledger.carried_ackSlot, h.numSamples]
    le := by
      rw [Ledger.slots_ackSlot]
      exact h.le
    ne_nil := by
      rw [Ledger.slots_ackSlot]
      exact h.ne_nil
    nodup := by
      rw [Ledger.pending_ackSlot]
      exact h.nodup.sublist (List.filter_sublist.map Slot.sample)
    acked := by
      rw [Ledger.slots_ackSlot, Ledger.acked_ackSlot]
      intro slot' hslot' hacked
      rcases Finset.mem_insert.mp hacked with heq | hacked
      · rw [h.serial_inj hslot' hslot heq]
        exact htransmitted
      · exact h.acked slot' hslot' hacked
    acked_lt := by
      rw [Ledger.slots_ackSlot, Ledger.acked_ackSlot]
      intro n hn
      rcases Finset.mem_insert.mp hn with rfl | hn
      · exact h.serial_lt hslot
      · exact h.acked_lt n hn
    tmp := by
      rw [Ledger.carried_ackSlot]
      exact h.tmp
    sending := h.sending
    sent := h.sent
    notified := by
      rintro b ⟨samples, hb⟩
      rw [hhistory] at hb
      rcases List.mem_cons.mp hb with heq | hb
      · cases heq
      · exact h.notified b ⟨samples, hb⟩
    once := by
      intro x
      rw [hhistory, sinceAck]
      split
      · exact Nat.zero_le 1
      · exact h.once x
    since := by
      intro x hne
      rw [hhistory, sinceAck] at hne
      split at hne
      · exact absurd rfl hne
      · rename_i hother
        obtain ⟨slot', hslot', rfl, htransmitted'⟩ := h.since x hne
        refine ⟨slot', ?_, rfl, htransmitted'⟩
        rw [Ledger.pending_ackSlot, List.mem_filter]
        refine ⟨hslot', decide_eq_true fun heq => hother ?_⟩
        rw [h.serial_inj (Ledger.mem_pending.mp hslot').1 hslot heq] }

theorem Keeps.ackSlots (h : s.Keeps l) (slots : List Slot)
    (hslots : ∀ slot ∈ slots, slot ∈ l.slots ∧ s.Transmitted slot.buffer) :
    s.Keeps (l.ackSlots slots) := by
  induction slots generalizing l with
  | nil => exact h
  | cons slot slots ih =>
    have hslot := hslots slot (by simp)
    refine ih (h.ackSlot hslot.1 hslot.2) fun slot' hslot' => ?_
    rw [Ledger.slots_ackSlot]
    exact hslots slot' (by simp [hslot'])

theorem getInt?_map {α β : Type} (f : α → β) (v : List α) (i : ℤ) :
    getInt? (v.map f) i = (getInt? v i).map f := by
  cases i with
  | ofNat i => exact List.getElem?_map
  | negSucc i => rfl

theorem mem_of_getInt? {α : Type} {v : List α} {i : ℤ} {a : α} (h : getInt? v i = some a) :
    a ∈ v := by
  cases i with
  | ofNat i => exact List.mem_of_getElem? h
  | negSucc i => cases h

theorem getInt?_inj {α : Type} {v : List α} (hv : v.Nodup) {i j : ℤ} {a : α}
    (hi : getInt? v i = some a) (hj : getInt? v j = some a) : i = j := by
  cases i with
  | negSucc i => cases hi
  | ofNat i =>
    cases j with
    | negSucc j => cases hj
    | ofNat j =>
      have hlt := (List.getElem?_eq_some_iff.mp hi).1
      exact congrArg Int.ofNat ((List.getElem?_inj hlt hv).mp (hi.trans hj.symm))

/-- One slot less is not acknowledged. -/
theorem Keeps.length_unacked (h : s.Keeps l) {slot : Slot} (hslot : slot ∈ l.pending) :
    ((l.ackSlot slot).unacked slot.buffer).length + 1 = (l.unacked slot.buffer).length := by
  have hnodup : (l.unacked slot.buffer).Nodup := by
    have hserials : (l.slots.map Slot.serial).Nodup := by
      rw [h.serials]
      exact List.nodup_range
    exact ((List.Nodup.of_map _ hserials).filter _).filter _
  have herase : (l.ackSlot slot).unacked slot.buffer = (l.unacked slot.buffer).erase slot := by
    rw [Ledger.unacked_ackSlot, hnodup.erase_eq_filter]
    apply List.filter_congr
    intro slot' hslot'
    have hserial : slot'.serial = slot.serial ↔ slot' = slot := by
      refine ⟨fun heq => ?_, fun heq => by rw [heq]⟩
      exact h.serial_inj (Ledger.mem_pending.mp (Ledger.mem_unacked.mp hslot').1).1
        (Ledger.mem_pending.mp hslot).1 heq
    by_cases heq : slot' = slot <;> simp [hserial, heq]
  rw [herase]
  exact List.length_erase_add_one (Ledger.mem_unacked.mpr ⟨hslot, rfl⟩)

/-- The slots of the other buffers stay as they are. -/
theorem Keeps.unacked_other (h : s.Keeps l) {slot : Slot} (hslot : slot ∈ l.slots) {b : ℕ}
    (hb : b ≠ slot.buffer) : (l.ackSlot slot).unacked b = l.unacked b := by
  rw [Ledger.unacked_ackSlot]
  apply List.filter_eq_self.mpr
  intro slot' hslot'
  refine decide_eq_true fun heq => hb ?_
  obtain ⟨hpending, rfl⟩ := Ledger.mem_unacked.mp hslot'
  rw [h.serial_inj (Ledger.mem_pending.mp hpending).1 hslot heq]

/-- The list with the filter of a ledger. -/
def withLedger (s : LearnList) (l : Ledger) : LearnList :=
  { s with
    filter := l.pending.map fun slot => (slot.serial, slot.sample)
    oldBuffers := entryOf l }

theorem Keeps.withLedger (h : s.Keeps l) : (s.withLedger l).Tracks l :=
  { h with
    filter := rfl
    old := rfl }

theorem Tracks.withLedger_self (h : s.Tracks l) : s.withLedger l = s := by
  rw [LearnList.withLedger, ← h.filter, ← h.old]

/-- **A turn of the loop of `ack`** acknowledges a slot that is pending. -/
theorem Tracks.ackSample (h : s.Tracks l) {b : ℕ} {i : ℤ} {slot : Slot}
    (hi : getInt? (l.carried b) i = some slot) (hpending : slot ∈ l.pending) :
    LearnList.ackSample b s i = some (s.withLedger (l.ackSlot slot)) := by
  obtain ⟨hslot, rfl⟩ := Ledger.mem_carried.mp (mem_of_getInt? hi)
  have hne : l.unacked slot.buffer ≠ [] :=
    List.ne_nil_of_mem (Ledger.mem_unacked.mpr ⟨hpending, rfl⟩)
  have hold : s.oldBuffers slot.buffer = some ⟨(l.unacked slot.buffer).length,
      (l.carried slot.buffer).map Slot.serial⟩ := by
    rw [h.old, entryOf, if_neg hne]
  have hlength := h.length_unacked hpending
  have hentries : Function.update s.oldBuffers slot.buffer
      (if (l.unacked slot.buffer).length = 1 then none
      else some ⟨(l.unacked slot.buffer).length - 1, (l.carried slot.buffer).map Slot.serial⟩) =
      entryOf (l.ackSlot slot) := by
    funext b
    by_cases hb : b = slot.buffer
    · subst hb
      rw [Function.update_self, entryOf, Ledger.carried_ackSlot, ← hlength, Nat.add_sub_cancel]
      by_cases hnil : (l.ackSlot slot).unacked slot.buffer = []
      · rw [if_pos hnil, if_pos (by rw [hnil]; rfl)]
      · rw [if_neg hnil, if_neg fun hone => hnil (List.length_eq_zero_iff.mp (by omega))]
    · rw [Function.update_of_ne hb, h.old, entryOf, entryOf, Ledger.carried_ackSlot,
        h.unacked_other hslot hb]
  rw [LearnList.ackSample, hold]
  simp only [Option.bind_eq_bind, Option.bind_some]
  rw [getInt?_map, hi, Option.map_some, Option.bind_some, h.filter, eraseNode_map hpending,
    Option.bind_some, hentries, LearnList.withLedger, Ledger.pending_ackSlot]
  rfl

/-- **`ack`**, with ids of different slots that are pending. -/
theorem Tracks.foldlM_ackSample (h : s.Tracks l) {b : ℕ} {ids : List ℤ}
    (htransmitted : s.Transmitted b) (hnodup : ids.Nodup)
    (hids : ∀ i ∈ ids, ∃ slot, getInt? (l.carried b) i = some slot ∧ slot ∈ l.pending) :
    ids.foldlM (LearnList.ackSample b) s = some (s.withLedger (l.ackSlots (l.named b ids))) := by
  induction ids generalizing s l with
  | nil => exact congrArg some h.withLedger_self.symm
  | cons i ids ih =>
    obtain ⟨slot, hi, hpending⟩ := hids i (by simp)
    have hmem := Ledger.mem_carried.mp (mem_of_getInt? hi)
    have hkeeps := h.ackSlot hmem.1 (by rw [hmem.2]; exact htransmitted)
    have hserials : (l.slots.map Slot.serial).Nodup := by
      rw [h.serials]
      exact List.nodup_range
    have hcarried : (l.carried b).Nodup := (List.Nodup.of_map _ hserials).filter _
    have hrest := ih hkeeps.withLedger htransmitted (List.nodup_cons.mp hnodup).2 ?_
    · rw [List.foldlM_cons, h.ackSample hi hpending]
      show ids.foldlM (LearnList.ackSample b) (s.withLedger (l.ackSlot slot)) = _
      rw [hrest]
      have hnamed : l.named b (i :: ids) = slot :: l.named b ids := by
        rw [Ledger.named, List.filterMap_cons, hi]
        rfl
      rw [hnamed, Ledger.named, Ledger.carried_ackSlot]
      rfl
    -- the other ids name other slots
    · intro j hj
      obtain ⟨slot', hj', hpending'⟩ := hids j (by simp [hj])
      refine ⟨slot', by rw [Ledger.carried_ackSlot, hj'], ?_⟩
      rw [Ledger.pending_ackSlot, List.mem_filter]
      refine ⟨hpending', decide_eq_true fun heq => ?_⟩
      rw [h.serial_inj (Ledger.mem_pending.mp hpending').1 hmem.1 heq] at hj'
      rw [getInt?_inj hcarried hi hj'] at hnodup
      exact (List.nodup_cons.mp hnodup).1 hj

/-- The filter without the nodes of some slots. -/
theorem foldlM_eraseNode {slots pending : List Slot} (hnodup : (slots.map Slot.serial).Nodup)
    (hpending : ∀ slot ∈ slots, slot ∈ pending) :
    (slots.map Slot.serial).foldlM eraseNode
        (pending.map fun slot => (slot.serial, slot.sample)) =
      some ((pending.filter (·.serial ∉ slots.map Slot.serial)).map
        fun slot => (slot.serial, slot.sample)) := by
  induction slots generalizing pending with
  | nil => simp
  | cons slot slots ih =>
    obtain ⟨hnot, hnodup⟩ := List.nodup_cons.mp hnodup
    rw [List.map_cons, List.foldlM_cons, eraseNode_map (hpending slot (by simp))]
    show (slots.map Slot.serial).foldlM eraseNode _ = _
    rw [ih hnodup]
    · rw [List.filter_filter]
      congr 2
      apply List.filter_congr
      intro slot' _
      simp [not_or, Bool.and_comm]
    · intro slot' hslot'
      refine List.mem_filter.mpr ⟨hpending slot' (by simp [hslot']), decide_eq_true fun heq => ?_⟩
      exact hnot (heq ▸ List.mem_map_of_mem hslot')

theorem Keeps.pending_ackBuffer (h : s.Keeps l) (b : ℕ) :
    (l.ackSlots (l.carried b)).pending = l.pending.filter (·.buffer ≠ b) := by
  rw [Ledger.pending, Ledger.pending, Ledger.slots_ackSlots, List.filter_filter]
  apply List.filter_congr
  intro slot hslot
  rw [← Bool.decide_and, decide_eq_decide, Ledger.mem_acked_ackSlots, not_or, and_comm]
  refine and_congr_left fun _ => not_congr ⟨?_, fun hb => ?_⟩
  · rintro ⟨slot', hslot', heq⟩
    obtain ⟨hmem, hb⟩ := Ledger.mem_carried.mp hslot'
    rw [← h.serial_inj hmem hslot heq]
    exact hb
  · exact ⟨slot, Ledger.mem_carried.mpr ⟨hslot, hb⟩, rfl⟩

theorem Keeps.entryOf_ackBuffer (h : s.Keeps l) (b : ℕ) :
    entryOf (l.ackSlots (l.carried b)) = Function.update (entryOf l) b none := by
  funext b'
  by_cases hb : b' = b
  · rw [hb, Function.update_self, entryOf_eq_none, Ledger.unacked_eq_filter, h.pending_ackBuffer,
      List.filter_filter, List.filter_eq_nil_iff]
    simp
  · rw [Function.update_of_ne hb, entryOf, entryOf, Ledger.carried_ackSlots,
      Ledger.unacked_eq_filter, h.pending_ackBuffer, List.filter_filter]
    have hsame : l.pending.filter (fun slot => slot.buffer = b' && slot.buffer ≠ b) =
        l.unacked b' := by
      rw [Ledger.unacked_eq_filter]
      apply List.filter_congr
      intro slot _
      by_cases heq : slot.buffer = b' <;> simp [heq, hb]
    rw [hsame]

/-- **`ack_buffer`**, of a buffer whose slots are all pending or that has all pending slots. -/
theorem Tracks.ackBuffer (h : s.Tracks l) {b : ℕ}
    (hslots : (l.unacked b).length = l.pending.length ∨ ∀ slot ∈ l.carried b, slot ∈ l.pending) :
    s.ackBuffer b = some (s.withLedger (l.ackSlots (l.carried b))) := by
  have hentries := h.entryOf_ackBuffer b
  rw [LearnList.ackBuffer, h.old, entryOf]
  split
  · rename_i hnone
    -- nothing is left to acknowledge
    have hnil : l.unacked b = [] := entryOf_eq_none.mp hnone
    have hacked : l.ackSlots (l.carried b) = l := by
      apply Ledger.ackSlots_of_acked
      intro slot hslot
      by_contra hnot
      have hmem : slot ∈ l.unacked b := List.mem_filter.mpr ⟨hslot, decide_eq_true hnot⟩
      rw [hnil] at hmem
      cases hmem
    rw [hacked, h.withLedger_self]
  · rename_i ptrs hsome
    split at hsome
    · cases hsome
    · cases hsome
      have hfilter : s.filterWithout ⟨(l.unacked b).length, (l.carried b).map Slot.serial⟩ =
          some ((l.pending.filter (·.buffer ≠ b)).map fun slot => (slot.serial, slot.sample)) := by
        rw [LearnList.filterWithout, h.filter, List.length_map]
        split
        · rename_i hall
          -- all pending slots are in this buffer
          have hfilter : l.pending.filter (·.buffer ≠ b) = [] := by
            rw [Ledger.unacked_eq_filter, List.length_filter_eq_length_iff] at hall
            rw [List.filter_eq_nil_iff]
            intro slot hslot
            simpa using hall slot hslot
          rw [hfilter]
          rfl
        · rename_i hnot
          have hcarried := hslots.resolve_left hnot
          have hserials : ((l.carried b).map Slot.serial).Nodup := by
            have hall : (l.slots.map Slot.serial).Nodup := by
              rw [h.serials]
              exact List.nodup_range
            exact hall.sublist (List.filter_sublist.map Slot.serial)
          rw [foldlM_eraseNode hserials hcarried]
          congr 2
          apply List.filter_congr
          intro slot hslot
          rw [decide_eq_decide]
          refine not_congr ⟨fun hmem => ?_, fun hb => ?_⟩
          · obtain ⟨slot', hslot', heq⟩ := List.mem_map.mp hmem
            obtain ⟨hmem', hb⟩ := Ledger.mem_carried.mp hslot'
            rw [← h.serial_inj hmem' (Ledger.mem_pending.mp hslot).1 heq]
            exact hb
          · exact List.mem_map_of_mem
              (Ledger.mem_carried.mpr ⟨(Ledger.mem_pending.mp hslot).1, hb⟩)
      rw [hfilter, Option.map_some, LearnList.withLedger, h.pending_ackBuffer, hentries]

/-! ## Runs -/

/-- The steps that keep the filter right: the samples are not empty, a message is not cut short at
32 bits, and an acknowledgement, which is of a buffer that has been transmitted, names each of its
samples at most once, and none that has been acknowledged before; a buffer is acknowledged as a
whole only when that holds for all of its samples, or when the filter has no others. -/
def AcksOnce (s : LearnList) : LearnOp → Prop
  | .addSample sample => sample ≠ []
  | .transmitSend => match s.transmit with
    | .sending n => n < 2 ^ 32 ∧ (s.learnMode = .writer → s.bufferTmp.length < 2 ^ 32)
    | _ => True
  | .ack bufferId sampleIds => ∀ filterPtrs ∈ s.oldBuffers bufferId,
      s.Transmitted bufferId ∧ sampleIds.Nodup ∧ ∀ sampleId ∈ sampleIds,
        ∃ node ∈ getInt? filterPtrs.buffer sampleId, node ∈ s.filter.map Prod.fst
  | .ackBuffer bufferId => ∀ filterPtrs ∈ s.oldBuffers bufferId,
      s.Transmitted bufferId ∧ (filterPtrs.unackedCount = s.filter.length ∨
        ∀ node ∈ filterPtrs.buffer, node ∈ s.filter.map Prod.fst)
  | _ => True

instance (b : ℕ) : Decidable (s.Transmitted b) :=
  inferInstanceAs (Decidable (_ < _ ∧ (_ = _ → _ = _ ∨ _ = _)))

instance : ∀ op, Decidable (s.AcksOnce op)
  | .addSample sample => inferInstanceAs (Decidable (sample ≠ []))
  | .transmitSend => match h : s.transmit with
    | .sending n => decidable_of_iff
        (n < 2 ^ 32 ∧ (s.learnMode = .writer → s.bufferTmp.length < 2 ^ 32)) (by rw [AcksOnce, h])
    | .waiting => .isTrue (by rw [AcksOnce, h]; trivial)
    | .sent => .isTrue (by rw [AcksOnce, h]; trivial)
  | .ack bufferId sampleIds => inferInstanceAs (Decidable (∀ filterPtrs ∈ s.oldBuffers bufferId,
      s.Transmitted bufferId ∧ sampleIds.Nodup ∧ ∀ sampleId ∈ sampleIds,
        ∃ node ∈ getInt? filterPtrs.buffer sampleId, node ∈ s.filter.map Prod.fst))
  | .ackBuffer bufferId => inferInstanceAs (Decidable (∀ filterPtrs ∈ s.oldBuffers bufferId,
      s.Transmitted bufferId ∧ (filterPtrs.unackedCount = s.filter.length ∨
        ∀ node ∈ filterPtrs.buffer, node ∈ s.filter.map Prod.fst)))
  | .setMaxSamples _ | .setTimeout _ | .wake | .transmitCheck _ | .transmitDone => .isTrue trivial

/-- The filter has the samples of the pending slots, each once; the pending slots are those of
closed buffers that have not been acknowledged and those that wait in the current buffer; and no
sample has been notified twice since it was last acknowledged. -/
structure FilterRight (s : LearnList) (l : Ledger) : Prop where
  filter : s.filter.map Prod.snd = l.pending.map Slot.sample
  nodup : (l.pending.map Slot.sample).Nodup
  le : ∀ slot ∈ l.pending, slot.buffer ≤ l.current
  waiting : s.buffer = (l.carried l.current).flatMap Slot.sample ∧
    ∀ slot ∈ l.carried l.current, slot ∈ l.pending
  once : ∀ x, sinceAck x l.history ≤ 1

theorem Tracks.filterRight (h : s.Tracks l) : s.FilterRight l where
  filter := by
    rw [h.filter, List.map_map]
    rfl
  nodup := h.nodup
  le slot hslot := h.current ▸ h.le slot (Ledger.mem_pending.mp hslot).1
  waiting := by
    rw [h.current]
    exact ⟨h.buffer, h.pending_of_not_transmitted fun htransmitted => lt_irrefl _ htransmitted.1⟩
  once := h.once

/-- The message of the transmit thread, when it is not cut short. -/
theorem Tracks.notification_eq (h : s.Tracks l) {n : ℕ} (hsending : s.transmit = .sending n)
    (hn : n < 2 ^ 32) : s.msgHdr n = (l.notification (s.bufferId - 1)).msgHdr ∧
      s.bufferTmp = (l.notification (s.bufferId - 1)).samples := by
  obtain ⟨hne, rfl⟩ := h.sending n hsending
  obtain ⟨-, hdata, hnum⟩ := h.tmp hne
  obtain ⟨hswitch, hcxt, hlist⟩ := h.ids
  refine ⟨?_, hdata⟩
  rw [LearnList.msgHdr, Nat.mod_eq_of_lt hn, hnum, hswitch, hcxt, hlist]
  rfl

/-- **Each step keeps the ledger.** -/
theorem Tracks.stepFollows (h : s.Tracks l) {op : LearnOp} (hop : s.AcksOnce op) :
    StepFollows exec Ledger.Step Tracks s l op := by
  have hclose {s' : LearnList} (heq : s.exec op = some (s', none))
      (hspec : ∀ l', l' = l ∨ l' = l.close → l.Step op none l')
      (hs' : s'.Tracks l ∨ s'.Tracks l.close) : StepFollows exec Ledger.Step Tracks s l op := by
    rcases hs' with hs' | hs'
    · exact .of_exec s' l none heq (hspec l (.inl rfl)) hs'
    · exact .of_exec s' l.close none heq (hspec _ (.inr rfl)) hs'
  cases op with
  | addSample sample =>
    rcases h.addSample hop with hs' | hs'
    · exact .of_exec _ _ none rfl ⟨rfl, .inl rfl⟩ hs'
    · exact .of_exec _ _ none rfl ⟨rfl, .inr rfl⟩ hs'
  | setMaxSamples nbSamples =>
    exact hclose rfl (fun l' hl' => ⟨rfl, hl'⟩) (h.setMaxSamples nbSamples)
  | setTimeout timeoutMs => exact hclose rfl (fun l' hl' => ⟨rfl, hl'⟩) (.inl { h with })
  | wake => exact hclose rfl (fun l' hl' => ⟨rfl, hl'⟩) h.wake
  | transmitCheck timedOut =>
    exact hclose rfl (fun l' hl' => ⟨rfl, hl'⟩) (h.transmitCheck timedOut)
  | transmitDone => exact hclose rfl (fun l' hl' => ⟨rfl, hl'⟩) (.inl h.transmitDone)
  | transmitSend =>
    cases hsending : s.transmit with
    | waiting =>
      refine .of_exec s l none ?_ (.inl ⟨rfl, rfl⟩) h
      rw [exec, transmitSend, hsending]
    | sent =>
      refine .of_exec s l none ?_ (.inl ⟨rfl, rfl⟩) h
      rw [exec, transmitSend, hsending]
    | sending n =>
      rw [AcksOnce, hsending] at hop
      obtain ⟨hn, hbytes⟩ := hop
      obtain ⟨hhdr, hdata⟩ := h.notification_eq hsending hn
      obtain ⟨hpos, -, -⟩ := h.tmp (h.sending n hsending).1
      have hspec : l.Step .transmitSend (some (l.notification (s.bufferId - 1)))
          (l.notify (s.bufferId - 1)) := by
        refine .inr ⟨_, ?_, fun hnotified => ?_, rfl, rfl⟩
        · rw [h.current]
          omega
        · exact h.not_transmitted hsending (h.notified _ hnotified)
      cases hmode : s.learnMode with
      | none =>
        refine .of_exec _ l none ?_ (.inl ⟨rfl, rfl⟩) (h.skip hsending)
        rw [exec, transmitSend, hsending, hmode]
      | writer =>
        refine .of_exec _ _ _ ?_ hspec (h.send hsending)
        rw [exec, transmitSend, hsending, hmode]
        simp only
        rw [Nat.mod_eq_of_lt (hbytes hmode), List.take_length, hhdr, hdata]
      | cb =>
        refine .of_exec _ _ _ ?_ hspec (h.send hsending)
        rw [exec, transmitSend, hsending, hmode]
        simp only
        rw [hhdr, hdata]
  | ack b ids =>
    by_cases hnone : l.unacked b = []
    · -- everything has been acknowledged
      have hacked : l.ackSlots (l.named b ids) = l := by
        apply Ledger.ackSlots_of_acked
        intro slot hslot
        obtain ⟨i, -, hi⟩ := List.mem_filterMap.mp hslot
        by_contra hnot
        have hmem : slot ∈ l.unacked b := List.mem_filter.mpr ⟨mem_of_getInt? hi, decide_eq_true hnot⟩
        rw [hnone] at hmem
        cases hmem
      refine .of_exec s l none ?_ ⟨rfl, hacked.symm⟩ h
      rw [exec, LearnList.ack, h.old, entryOf_eq_none.mpr hnone]
      rfl
    · have hold : s.oldBuffers b = some ⟨(l.unacked b).length, (l.carried b).map Slot.serial⟩ := by
        rw [h.old, entryOf, if_neg hnone]
      obtain ⟨htransmitted, hnodup, hids⟩ := hop _ hold
      have hpending (i : ℤ) (hi : i ∈ ids) :
          ∃ slot, getInt? (l.carried b) i = some slot ∧ slot ∈ l.pending := by
        obtain ⟨node, hnode, hmem⟩ := hids i hi
        rw [getInt?_map, Option.mem_def, Option.map_eq_some_iff] at hnode
        obtain ⟨slot, hslot, rfl⟩ := hnode
        rw [h.filter, List.map_map] at hmem
        obtain ⟨slot', hslot', heq⟩ := List.mem_map.mp hmem
        rw [← h.serial_inj (Ledger.mem_pending.mp hslot').1
          (Ledger.mem_carried.mp (mem_of_getInt? hslot)).1 heq] at hslot
        exact ⟨slot', hslot, hslot'⟩
      refine .of_exec _ _ none ?_ ⟨rfl, rfl⟩ (h.ackSlots (l.named b ids) ?_).withLedger
      · rw [exec, LearnList.ack, hold, h.foldlM_ackSample htransmitted hnodup hpending]
        rfl
      · intro slot hslot
        obtain ⟨i, -, hi⟩ := List.mem_filterMap.mp hslot
        obtain ⟨hmem, hb⟩ := Ledger.mem_carried.mp (mem_of_getInt? hi)
        exact ⟨hmem, hb ▸ htransmitted⟩
  | ackBuffer b =>
    by_cases hnone : l.unacked b = []
    · have hacked : l.ackSlots (l.carried b) = l := by
        apply Ledger.ackSlots_of_acked
        intro slot hslot
        by_contra hnot
        have hmem : slot ∈ l.unacked b := List.mem_filter.mpr ⟨hslot, decide_eq_true hnot⟩
        rw [hnone] at hmem
        cases hmem
      refine .of_exec s l none ?_ ⟨rfl, hacked.symm⟩ h
      rw [exec, LearnList.ackBuffer, h.old, entryOf_eq_none.mpr hnone]
      rfl
    · have hold : s.oldBuffers b = some ⟨(l.unacked b).length, (l.carried b).map Slot.serial⟩ := by
        rw [h.old, entryOf, if_neg hnone]
      obtain ⟨htransmitted, hslots⟩ := hop _ hold
      refine .of_exec _ _ none ?_ ⟨rfl, rfl⟩ (h.ackSlots (l.carried b) ?_).withLedger
      · rw [exec, h.ackBuffer]
        · rfl
        · refine hslots.imp (fun hall => ?_) fun hall slot hslot => ?_
          · rw [h.filter, List.length_map] at hall
            exact hall
          · have hmem := hall slot.serial (List.mem_map_of_mem hslot)
            rw [h.filter, List.map_map] at hmem
            obtain ⟨slot', hslot', heq⟩ := List.mem_map.mp hmem
            rw [← h.serial_inj (Ledger.mem_pending.mp hslot').1 (Ledger.mem_carried.mp hslot).1 heq]
            exact hslot'
      · intro slot hslot
        obtain ⟨hmem, hb⟩ := Ledger.mem_carried.mp hslot
        exact ⟨hmem, hb ▸ htransmitted⟩

/-- A new list and its ledger. -/
theorem tracks_create (listId deviceId cxtId maxSamples timeout : ℕ) (learnMode : LearnMode) :
    (create listId deviceId cxtId maxSamples timeout learnMode).Tracks
      { switchId := deviceId, cxtId := cxtId, listId := listId } where
  ids := ⟨rfl, rfl, rfl⟩
  current := rfl
  serials := rfl
  nodes := rfl
  buffer := rfl
  numSamples := rfl
  le slot hslot := absurd hslot List.not_mem_nil
  ne_nil slot hslot := absurd hslot List.not_mem_nil
  nodup := List.nodup_nil
  acked slot hslot := absurd hslot List.not_mem_nil
  acked_lt n hn := absurd hn (Finset.notMem_empty n)
  tmp hne := absurd rfl hne
  sending n hn := by cases hn
  sent hsent := by cases hsent
  notified b := by
    rintro ⟨samples, hb⟩
    exact absurd hb List.not_mem_nil
  once _ := Nat.zero_le 1
  since x hx := absurd rfl hx
  filter := rfl
  old := rfl

/-- **The filter is right in every run of steps that acknowledge every slot at most once.**  No such
run uses an erased entry. -/
theorem follows_of_acksOnce (listId deviceId cxtId maxSamples timeout : ℕ) (learnMode : LearnMode)
    {ops : List LearnOp}
    (hmeets : RunMeets (fun s op => (exec s op).map Prod.fst) AcksOnce
      (create listId deviceId cxtId maxSamples timeout learnMode) ops) :
    (∃ s, runFrom (fun s op => (exec s op).map Prod.fst)
      (create listId deviceId cxtId maxSamples timeout learnMode) ops = some s) ∧
    Follows exec Ledger.Step FilterRight
      (create listId deviceId cxtId maxSamples timeout learnMode)
      { switchId := deviceId, cxtId := cxtId, listId := listId } ops := by
  have hfollows := Follows.of_meets (fun _ _ _ h hop => Tracks.stepFollows h hop)
    (tracks_create listId deviceId cxtId maxSamples timeout learnMode) hmeets
  exact ⟨hfollows.exists_run Ledger.exists_step, hfollows.mono fun _ _ h => h.filterRight⟩

/-- Two samples are learnt and notified, then acknowledged one by one, and the first is learnt
again. -/
theorem follows_of_acksOnce_two : Follows exec Ledger.Step FilterRight (create 1 0 0 2 0 .cb)
    { switchId := 0, cxtId := 0, listId := 1 }
    [.addSample [7], .addSample [8], .transmitCheck false, .transmitSend, .transmitDone,
      .ack 0 [1], .ack 0 [0], .ack 0 [0, 5], .addSample [7], .ackBuffer 0] :=
  (follows_of_acksOnce 1 0 0 2 0 .cb (by decide)).2

/-- A sample that is acknowledged twice, while the other one of its buffer is not, uses an erased
entry. -/
theorem ack_twice_not_follows : ¬ Follows exec Ledger.Step FilterRight (create 1 0 0 2 0 .cb)
    { switchId := 0, cxtId := 0, listId := 1 }
    [.addSample [7], .addSample [8], .transmitCheck false, .transmitSend, .transmitDone,
      .ack 0 [0], .ack 0 [0]] := by
  intro h
  obtain ⟨s, hs⟩ := h.exists_run Ledger.exists_step
  cases hs

end LearnList

end Bm
