/-
# A meter shared by threads

`Meter::execute` reads the clock before it takes the lock of the meter, so the
updates of several threads reach the buckets in another order than their clock
readings.  `MeterThreads.step` interleaves the two parts of each execution; an
update whose assertion fails aborts.

`Meter.executeFrom_updated` is about one execution of the loop; `Inv` is kept
along runs: the count that a bucket was last refilled to is that of an earlier
update that got to it, and what the bucket let through is within its burst size
and that count.
-/
import Bmv2.MeterSpec

namespace Bm

namespace MeterRate

/-- `tokens_since_init`, the 64-bit count of the tokens of a rate at a clock reading. -/
def count (rate : MeterRate) (now : ℕ) : ℕ := earned rate.infoRate now % 2 ^ 64

/-- The tokens of a rate once it is refilled. -/
def refilled (rate : MeterRate) (now : ℕ) : ℕ :=
  min ((rate.tokens + (rate.count now - rate.tokensLast)) % 2 ^ 64) rate.burstSize

/-- What the configuration of a meter fixes: rate, burst size and colour. -/
def fixed (rate : MeterRate) : ℚ × ℕ × ℕ := (rate.infoRate, rate.burstSize, rate.color)

theorem refilled_le (rate : MeterRate) (now : ℕ) :
    rate.refilled now ≤ rate.tokens + (rate.count now - rate.tokensLast) :=
  (min_le_left _ _).trans (Nat.mod_le _ _)

theorem count_le_earned (rate : MeterRate) (now : ℕ) :
    rate.count now ≤ earned rate.infoRate now := Nat.mod_le _ _

end MeterRate

/-- A finished execution: its clock reading, what the packet cost and the colour it got. -/
structure MeterUpdate where
  now : ℕ
  input : ℕ
  color : ℕ
  deriving DecidableEq

/-- A meter with the threads that execute it: `readings` holds the clock reading and the packet
length of each thread that has not updated the buckets yet, `clock` is the latest reading. -/
structure MeterThreads where
  meter : Meter
  clock : ℕ
  readings : ℕ → Option (ℕ × ℕ)
  log : List MeterUpdate

/-- One atomic step of a thread. -/
inductive MeterEvent where
  | read (thread elapsed ingressLength : ℕ)
  | update (thread : ℕ)
  deriving DecidableEq

/-- A packet gets to the rate at place `k`: the rates before it have the tokens that it costs. -/
def Meter.GetsTo (rates : List MeterRate) (now input k : ℕ) : Prop :=
  ∀ j < k, ∀ rate : MeterRate, rates[j]? = some rate → input ≤ rate.refilled now

namespace MeterThreads

/-- No execution has begun. -/
def start (m : Meter) : MeterThreads := ⟨m, 0, fun _ => none, []⟩

/-- One step: a thread reads the clock, or does its critical section.  A thread that is not at
the step does nothing. -/
def step (s : MeterThreads) : MeterEvent → Option MeterThreads
  | .read thread elapsed ingressLength =>
      match s.readings thread with
      | some _ => some s
      | none => some { s with
          clock := s.clock + elapsed
          readings := Function.update s.readings thread (some (s.clock + elapsed, ingressLength)) }
  | .update thread =>
      match s.readings thread with
      | none => some s
      | some (now, ingressLength) => do
          let (color, meter) ← s.meter.execute now ingressLength
          pure { s with
            meter
            readings := Function.update s.readings thread none
            log := ⟨now, s.meter.input ingressLength, color⟩ :: s.log }

/-- An update comes in turn: for every rate that its packet gets to, no earlier update that
got to that rate counted more tokens. -/
def InTurn (s : MeterThreads) : MeterEvent → Prop
  | .read .. => True
  | .update thread => ∀ now ingressLength, s.readings thread = some (now, ingressLength) →
      ∀ k rate, s.meter.rates[k]? = some rate →
        Meter.GetsTo s.meter.rates now (s.meter.input ingressLength) k →
        ∀ e ∈ s.log, e.color ≤ rate.color → rate.count e.now ≤ rate.count now

/-- The tokens that the rate of a colour has granted. -/
def granted (color : ℕ) (log : List MeterUpdate) : ℕ :=
  ((log.filter fun e => e.color < color).map MeterUpdate.input).sum

end MeterThreads

/-! ## One execution of the loop -/

/-- What an execution of colour `color` does to a rate. -/
structure MeterRate.Updated (now input color : ℕ) (rate rate' : MeterRate) : Prop where
  fixed : rate'.fixed = rate.fixed
  skipped : rate.color < color → rate' = rate
  order : color ≤ rate.color → rate.tokensLast ≤ rate.count now
  tokensLast : color ≤ rate.color → rate'.tokensLast = rate.count now
  paid : color ≤ rate.color →
    rate'.tokens + (if color < rate.color then input else 0) ≤ rate.refilled now

namespace Meter

/-- The colours of the rates are positive and go down along the rates. -/
def ColorsDescend (rates : List MeterRate) : Prop :=
  rates.Pairwise (fun r r' => r'.color < r.color) ∧ ∀ r ∈ rates, 0 < r.color

variable {now input color : ℕ} {rates rates' : List MeterRate}

@[simp] theorem getsTo_zero (rates : List MeterRate) (now input : ℕ) :
    GetsTo rates now input 0 := fun j hj => absurd hj (Nat.not_lt_zero j)

theorem getsTo_succ (rate : MeterRate) (rates : List MeterRate) (now input k : ℕ) :
    GetsTo (rate :: rates) now input (k + 1) ↔
      input ≤ rate.refilled now ∧ GetsTo rates now input k := by
  constructor
  · intro h
    refine ⟨h 0 (Nat.succ_pos k) rate rfl, fun j hj r hr => ?_⟩
    exact h (j + 1) (Nat.succ_lt_succ hj) r (by simpa using hr)
  · rintro ⟨hrate, h⟩ j hj r hr
    cases j with
    | zero =>
      obtain rfl : rate = r := by simpa using hr
      exact hrate
    | succ j => exact h j (Nat.lt_of_succ_lt_succ hj) r (by simpa using hr)

/-- The loop, one rate at a time. -/
theorem executeFrom_cons (now input : ℕ) (rate : MeterRate) (rates : List MeterRate) :
    executeFrom now input (rate :: rates) =
      if rate.count now < rate.tokensLast then none
      else if rate.refilled now < input then
        some (rate.color, { rate with
          tokensLast := rate.count now, tokens := rate.refilled now } :: rates)
      else (executeFrom now input rates).map fun p =>
        (p.1, { rate with
          tokensLast := rate.count now, tokens := rate.refilled now - input } :: p.2) := by
  rw [executeFrom, Option.map_eq_bind]
  rfl

/-- The loop aborts exactly when it gets to a rate that was refilled to a higher count. -/
theorem executeFrom_eq_none :
    executeFrom now input rates = none ↔
      ∃ (k : ℕ) (rate : MeterRate), rates[k]? = some rate ∧ GetsTo rates now input k ∧
        rate.count now < rate.tokensLast := by
  induction rates with
  | nil => simp [executeFrom]
  | cons rate rates ih =>
    rw [executeFrom_cons]
    by_cases hbelow : rate.count now < rate.tokensLast
    · rw [if_pos hbelow]
      exact iff_of_true rfl ⟨0, rate, rfl, getsTo_zero _ _ _, hbelow⟩
    · have hzero : (∃ (k : ℕ) (r : MeterRate), (rate :: rates)[k]? = some r ∧
          GetsTo (rate :: rates) now input k ∧ r.count now < r.tokensLast) ↔
          input ≤ rate.refilled now ∧ executeFrom now input rates = none := by
        rw [ih]
        constructor
        · rintro ⟨k, r, hk, hgets, hr⟩
          cases k with
          | zero =>
            obtain rfl : rate = r := by simpa using hk
            exact absurd hr hbelow
          | succ k =>
            rw [getsTo_succ] at hgets
            exact ⟨hgets.1, k, r, by simpa using hk, hgets.2, hr⟩
        · rintro ⟨hle, k, r, hk, hgets, hr⟩
          exact ⟨k + 1, r, by simpa using hk, (getsTo_succ _ _ _ _ _).mpr ⟨hle, hgets⟩, hr⟩
      rw [if_neg hbelow, hzero]
      by_cases hshort : rate.refilled now < input
      · rw [if_pos hshort]
        exact iff_of_false (by simp) fun h => absurd h.1 (not_le.mpr hshort)
      · rw [if_neg hshort, Option.map_eq_none_iff]
        exact (and_iff_right (not_lt.mp hshort)).symm

/-- The colour of a packet is that of a rate, or zero. -/
theorem executeFrom_color_lt {bound : ℕ} (hbound : 0 < bound)
    (hcolors : ∀ r ∈ rates, r.color < bound)
    (h : executeFrom now input rates = some (color, rates')) : color < bound := by
  induction rates generalizing rates' with
  | nil =>
    obtain ⟨rfl, -⟩ : 0 = color ∧ [] = rates' := by simpa [executeFrom] using h
    exact hbound
  | cons rate rates ih =>
    rw [executeFrom_cons] at h
    split at h
    · simp at h
    · split at h
      · obtain ⟨rfl, -⟩ := (Prod.mk.injEq ..).mp (Option.some.inj h)
        exact hcolors rate (by simp)
      · obtain ⟨p, hp, heq⟩ := Option.map_eq_some_iff.mp h
        obtain ⟨rfl, -⟩ := (Prod.mk.injEq ..).mp heq
        exact ih (fun r hr => hcolors r (by simp [hr])) hp

/-- What the loop does to each rate. -/
theorem executeFrom_updated (hdesc : ColorsDescend rates)
    (h : executeFrom now input rates = some (color, rates')) :
    List.Forall₂ (MeterRate.Updated now input color) rates rates' := by
  induction rates generalizing rates' with
  | nil =>
    obtain ⟨-, rfl⟩ : 0 = color ∧ [] = rates' := by simpa [executeFrom] using h
    exact .nil
  | cons rate rates ih =>
    obtain ⟨hhead, htail⟩ := List.pairwise_cons.mp hdesc.1
    rw [executeFrom_cons] at h
    split at h
    · simp at h
    next hcount =>
      have horder : rate.tokensLast ≤ rate.count now := not_lt.mp hcount
      split at h
      · -- this rate refuses the packet, the rates after it are left as they are
        obtain ⟨rfl, rfl⟩ := (Prod.mk.injEq ..).mp (Option.some.inj h)
        refine .cons ⟨rfl, fun hlt => absurd hlt (lt_irrefl _), fun _ => horder, fun _ => rfl,
          fun _ => ?_⟩ ?_
        · simp
        · refine List.forall₂_same.mpr fun r hr => ?_
          have hlt := hhead r hr
          exact ⟨rfl, fun _ => rfl, fun hle => absurd hle (by omega),
            fun hle => absurd hle (by omega), fun hle => absurd hle (by omega)⟩
      · next henough =>
        obtain ⟨p, hp, heq⟩ := Option.map_eq_some_iff.mp h
        obtain ⟨rfl, rfl⟩ := (Prod.mk.injEq ..).mp heq
        have hlt : p.1 < rate.color := executeFrom_color_lt (hdesc.2 rate (by simp)) hhead hp
        refine .cons ⟨rfl, fun hgt => absurd hgt (by omega), fun _ => horder, fun _ => rfl,
          fun _ => ?_⟩ ?_
        · rw [if_pos hlt]
          show rate.refilled now - input + input ≤ rate.refilled now
          omega
        · exact ih ⟨htail, fun r hr => hdesc.2 r (by simp [hr])⟩ hp

end Meter

/-! ## The invariant of a run -/

/-- The count and the tokens of a rate, from the updates that got to it. -/
structure MeterRate.Accounted (s : MeterThreads) (rate : MeterRate) : Prop where
  nonneg : 0 ≤ rate.infoRate
  elapsed : rate.tokensLast ≤ earned rate.infoRate s.clock
  used : ∀ e ∈ s.log, e.color ≤ rate.color → rate.count e.now ≤ rate.tokensLast
  newest : rate.tokensLast = 0 ∨
    ∃ e ∈ s.log, e.color ≤ rate.color ∧ rate.count e.now = rate.tokensLast
  paid : rate.tokens + MeterThreads.granted rate.color s.log ≤ rate.burstSize + rate.tokensLast

namespace MeterThreads

/-- What holds of a meter that threads execute; `fixed` is its configuration. -/
structure Inv (fixed : List (ℚ × ℕ × ℕ)) (s : MeterThreads) : Prop where
  configured : s.meter.configured = true
  fixed : s.meter.rates.map MeterRate.fixed = fixed
  descend : Meter.ColorsDescend s.meter.rates
  pending : ∀ thread now ingressLength,
    s.readings thread = some (now, ingressLength) → now ≤ s.clock
  rates : ∀ rate ∈ s.meter.rates, rate.Accounted s

theorem granted_cons (color : ℕ) (e : MeterUpdate) (log : List MeterUpdate) :
    granted color (e :: log) = (if e.color < color then e.input else 0) + granted color log := by
  unfold granted
  rw [List.filter_cons]
  by_cases h : e.color < color
  · simp [h]
  · simp [h]

/-- Colours go down along rates that have the same configuration. -/
theorem colorsDescend_of_fixed {rates rates' : List MeterRate} (h : Meter.ColorsDescend rates)
    (hfixed : rates'.map MeterRate.fixed = rates.map MeterRate.fixed) :
    Meter.ColorsDescend rates' := by
  have hcolors : rates'.map MeterRate.color = rates.map MeterRate.color := by
    have := congrArg (List.map fun f : ℚ × ℕ × ℕ => f.2.2) hfixed
    simpa [MeterRate.fixed, Function.comp_def] using this
  have hiff (rs : List MeterRate) : Meter.ColorsDescend rs ↔
      (rs.map MeterRate.color).Pairwise (fun c c' => c' < c) ∧
        ∀ c ∈ rs.map MeterRate.color, 0 < c := by
    rw [List.pairwise_map, List.forall_mem_map]
    exact Iff.rfl
  rw [hiff] at h ⊢
  rwa [hcolors]

/-- The critical section of a thread. -/
theorem step_update {s : MeterThreads} {thread now ingressLength : ℕ}
    (hconf : s.meter.configured = true) (h : s.readings thread = some (now, ingressLength)) :
    s.step (.update thread) =
      (Meter.executeFrom now (s.meter.input ingressLength) s.meter.rates).map fun p =>
        { s with
          meter := { s.meter with rates := p.2 }
          readings := Function.update s.readings thread none
          log := ⟨now, s.meter.input ingressLength, p.1⟩ :: s.log } := by
  unfold step
  dsimp only
  rw [h]
  unfold Meter.execute
  simp only [hconf, if_true]
  show (Option.bind (Option.bind (Meter.executeFrom _ _ _) _) _) = _
  rw [Option.map_eq_bind, Option.bind_assoc]
  rfl

variable {fixed : List (ℚ × ℕ × ℕ)} {s s' : MeterThreads} {event : MeterEvent}

/-- Under the invariant an update goes through exactly when it comes in turn: the count that a
bucket was last refilled to is that of an earlier update that got to it. -/
theorem Inv.step_iff (h : s.Inv fixed) : (∃ s', s.step event = some s') ↔ s.InTurn event := by
  cases event with
  | read thread elapsed ingressLength =>
    refine iff_of_true ?_ trivial
    unfold step
    dsimp only
    split
    · exact ⟨_, rfl⟩
    · exact ⟨_, rfl⟩
  | update thread =>
    cases hread : s.readings thread with
    | none =>
      refine iff_of_true ⟨s, by simp [step, hread]⟩ fun now len hsome => ?_
      simp [hread] at hsome
    | some reading =>
      obtain ⟨now, ingressLength⟩ := reading
      have hsome : (∃ s', s.step (.update thread) = some s') ↔
          Meter.executeFrom now (s.meter.input ingressLength) s.meter.rates ≠ none := by
        rw [step_update h.configured hread, ← Option.isSome_iff_exists, Option.isSome_map,
          Option.isSome_iff_ne_none]
      rw [hsome, Ne, Meter.executeFrom_eq_none]
      constructor
      · intro hturn now' len' hread' k rate hk hgets e he hcolor
        obtain ⟨rfl, rfl⟩ : now = now' ∧ ingressLength = len' := by simpa [hread] using hread'
        have hused := (h.rates rate (List.mem_of_getElem? hk)).used e he hcolor
        by_contra hlt
        exact hturn ⟨k, rate, hk, hgets, by omega⟩
      · rintro hturn ⟨k, rate, hk, hgets, hlt⟩
        rcases (h.rates rate (List.mem_of_getElem? hk)).newest with hzero | ⟨e, he, hcolor, hcount⟩
        · omega
        · have := hturn now ingressLength hread k rate hk hgets e he hcolor
          omega

/-- A clock reading keeps the account of a rate. -/
theorem accounted_later {rate : MeterRate} (h : rate.Accounted s)
    (hlog : s'.log = s.log) (hclock : s.clock ≤ s'.clock) : rate.Accounted s' where
  nonneg := h.nonneg
  elapsed := h.elapsed.trans (earned_mono h.nonneg hclock)
  used := hlog ▸ h.used
  newest := hlog ▸ h.newest
  paid := hlog ▸ h.paid

/-- An update keeps the account of each rate, got to or not. -/
theorem accounted_update {rate rate' : MeterRate} {now input color : ℕ} (h : rate.Accounted s)
    (hup : rate.Updated now input color rate') (hnow : now ≤ s.clock)
    (hlog : s'.log = ⟨now, input, color⟩ :: s.log) (hclock : s'.clock = s.clock) :
    rate'.Accounted s' := by
  obtain ⟨hrate, hburst, hcolor⟩ : rate'.infoRate = rate.infoRate ∧
      rate'.burstSize = rate.burstSize ∧ rate'.color = rate.color := by
    simpa [MeterRate.fixed] using hup.fixed
  have hcount (t : ℕ) : rate'.count t = rate.count t := by
    unfold MeterRate.count
    rw [hrate]
  rcases le_or_gt color rate.color with hgot | hskip
  · have hlast := hup.tokensLast hgot
    refine ⟨hrate ▸ h.nonneg, ?_, ?_, ?_, ?_⟩
    · rw [hlast, hrate, hclock]
      exact (rate.count_le_earned now).trans (earned_mono h.nonneg hnow)
    · intro e he hecolor
      rw [hcount, hlast]
      rw [hlog, List.mem_cons] at he
      rcases he with rfl | he
      · exact le_rfl
      · exact (h.used e he (hcolor ▸ hecolor)).trans (hup.order hgot)
    · refine .inr ⟨⟨now, input, color⟩, by simp [hlog], hcolor ▸ hgot, ?_⟩
      rw [hcount, hlast]
    · have hpaid := hup.paid hgot
      have hfill := rate.refilled_le now
      have horder := hup.order hgot
      have hbefore := h.paid
      rw [hlog, granted_cons, hcolor, hburst, hlast]
      dsimp only
      omega
  · obtain rfl := hup.skipped hskip
    refine ⟨h.nonneg, hclock ▸ h.elapsed, ?_, ?_, ?_⟩
    · intro e he hecolor
      rw [hlog, List.mem_cons] at he
      rcases he with rfl | he
      · exact absurd hecolor (not_le.mpr hskip)
      · exact h.used e he hecolor
    · refine h.newest.imp_right fun ⟨e, he, hecolor, hlast⟩ => ?_
      exact ⟨e, by simp [hlog, he], hecolor, hlast⟩
    · have hbefore := h.paid
      rw [hlog, granted_cons, if_neg (show ¬ color < rate'.color by omega)]
      omega

/-- **Step lemma.** -/
theorem Inv.step (h : s.Inv fixed) (hstep : s.step event = some s') : s'.Inv fixed := by
  cases event with
  | read thread elapsed ingressLength =>
    unfold MeterThreads.step at hstep
    dsimp only at hstep
    split at hstep
    · exact Option.some.inj hstep ▸ h
    · obtain rfl := Option.some.inj hstep
      refine ⟨h.configured, h.fixed, h.descend, ?_, fun rate hrate => ?_⟩
      · intro thread' now len hread
        dsimp only at hread
        by_cases hthread : thread' = thread
        · subst hthread
          obtain ⟨rfl, -⟩ : s.clock + elapsed = now ∧ ingressLength = len := by
            simpa using hread
          exact le_rfl
        · rw [Function.update_of_ne hthread] at hread
          exact (h.pending thread' now len hread).trans (Nat.le_add_right _ _)
      · exact accounted_later (h.rates rate hrate) rfl (Nat.le_add_right _ _)
  | update thread =>
    cases hread : s.readings thread with
    | none =>
      obtain rfl : s = s' := by simpa [MeterThreads.step, hread] using hstep
      exact h
    | some reading =>
      obtain ⟨now, ingressLength⟩ := reading
      rw [step_update h.configured hread] at hstep
      obtain ⟨⟨color, rates'⟩, hrun, rfl⟩ := Option.map_eq_some_iff.mp hstep
      have hup := Meter.executeFrom_updated h.descend hrun
      have hfixed : rates'.map MeterRate.fixed = s.meter.rates.map MeterRate.fixed := by
        rw [← List.forall₂_eq_eq_eq, List.forall₂_map_left_iff, List.forall₂_map_right_iff]
        exact hup.flip.imp fun r' r hr => hr.fixed
      refine ⟨h.configured, hfixed.trans h.fixed, colorsDescend_of_fixed h.descend hfixed, ?_, ?_⟩
      · intro thread' now' len hread'
        dsimp only at hread'
        by_cases hthread : thread' = thread
        · subst hthread
          simp at hread'
        · rw [Function.update_of_ne hthread] at hread'
          exact h.pending thread' now' len hread'
      · intro rate' hrate'
        obtain ⟨i, hi, rfl⟩ := List.getElem_of_mem hrate'
        have hi' : i < s.meter.rates.length := hup.length_eq ▸ hi
        exact accounted_update (h.rates _ (List.getElem_mem hi')) (hup.get hi' hi)
          (h.pending thread now ingressLength hread) rfl rfl

/-- The rates that a configuration gives a meter. -/
def fixedOf (configs : List RateConfig) : List (ℚ × ℕ × ℕ) :=
  (configs.mapIdx fun idx config => (config.infoRate, config.burstSize, idx + 1)).reverse

theorem Inv.start {m m' : Meter} {configs : List RateConfig}
    (hset : m.setRates configs = (.success, m'))
    (hrate : ∀ config ∈ configs, 0 ≤ config.infoRate) : (start m').Inv (fixedOf configs) := by
  rw [Meter.setRates_success hset]
  refine ⟨rfl, ?_, ⟨?_, ?_⟩, fun thread now len hread => absurd hread (by simp [MeterThreads.start]), ?_⟩
  · show ((configs.mapIdx RateConfig.configured).reverse).map MeterRate.fixed = _
    rw [List.map_reverse, fixedOf]
    refine congrArg List.reverse (List.ext_getElem? fun i => ?_)
    simp [MeterRate.fixed, RateConfig.configured, Function.comp_def]
  · show ((configs.mapIdx RateConfig.configured).reverse).Pairwise _
    rw [List.pairwise_reverse, List.pairwise_iff_getElem]
    intro i j hi hj hij
    simp only [List.getElem_mapIdx, RateConfig.configured]
    omega
  · intro rate hmem
    obtain ⟨i, hi, rfl⟩ := List.mem_mapIdx.mp (List.mem_reverse.mp hmem)
    exact Nat.succ_pos i
  · intro rate hmem
    obtain ⟨i, hi, rfl⟩ := List.mem_mapIdx.mp (List.mem_reverse.mp hmem)
    exact ⟨hrate _ (List.getElem_mem hi), Nat.zero_le _, by simp [MeterThreads.start], .inl rfl,
      by simp [MeterThreads.start, RateConfig.configured, granted]⟩

end MeterThreads

end Bm
