/-
# Meters against a reference marker

`Meter::execute` refills a bucket only when the loop gets to it, and stops at
the first bucket that refuses the packet.  `MeterRate.Tracks` relates such a
bucket to one of the marker of `Lib/TokenBucket`, which is refilled for every
packet: `executeFrom_tracks` is the step, `Meter.marks_tracks` the run.
-/
import Bmv2.Meters
import Bmv2.Lib.Runs
import Bmv2.Lib.TokenBucket

namespace Bm

/-- The rate that `set_rate` writes at place `idx`. -/
def RateConfig.configured (idx : ℕ) (config : RateConfig) : MeterRate where
  valid := true
  infoRate := config.infoRate
  burstSize := config.burstSize
  tokens := config.burstSize
  tokensLast := 0
  color := idx + 1

/-- The bucket of a rate in the reference marker. -/
def RateConfig.bucket (idx : ℕ) (config : RateConfig) : Bucket where
  rate := config.infoRate
  burst := config.burstSize
  color := idx + 1
  tokens := config.burstSize

/-- The reference marker: one full bucket for each rate, charged from the highest rate to
the lowest. -/
def referenceMarker (configs : List RateConfig) : Marker where
  buckets := (configs.mapIdx RateConfig.bucket).reverse
  last := 0

/-- What a packet costs. -/
def Meter.input (m : Meter) (ingressLength : ℕ) : ℕ := if m.packets then 1 else ingressLength

/-- The packets as the marker sees them: the arrival times with the costs. -/
def Meter.costs (m : Meter) (arrivals : List (ℕ × ℕ)) : List (ℕ × ℕ) :=
  arrivals.map fun p => (p.1, m.input p.2)

namespace Meter

/-- The colours of a sequence of packets, each an arrival time in microseconds and a length. -/
def marks : Meter → List (ℕ × ℕ) → Option (List ℕ × Meter)
  | m, [] => some ([], m)
  | m, (now, ingressLength) :: arrivals => do
      let (color, m) ← m.execute now ingressLength
      let (colors, m) ← m.marks arrivals
      pure (color :: colors, m)

/-- The meter after one packet. -/
def pass (m : Meter) (p : ℕ × ℕ) : Option Meter := (m.execute p.1 p.2).map Prod.snd

/-- The two 64-bit computations of a refill stay below `2^64`. -/
def NoWrap (m : Meter) (p : ℕ × ℕ) : Prop :=
  ∀ rate ∈ m.rates, earned rate.infoRate p.1 < 2 ^ 64 ∧
    rate.tokens + (earned rate.infoRate p.1 - rate.tokensLast) < 2 ^ 64

instance (m : Meter) (p : ℕ × ℕ) : Decidable (m.NoWrap p) :=
  inferInstanceAs (Decidable (∀ rate ∈ m.rates, _))

/-! ## Configuration -/

theorem setRate_success {rates rates' : List MeterRate} {idx : ℕ} {config : RateConfig}
    (h : setRate rates idx config = (.success, rates')) :
    rates' = rates.set idx (config.configured idx) := by
  unfold setRate at h
  dsimp only at h
  split at h
  · simp at h
  · exact ((Prod.mk.injEq ..).mp h).2.symm

/-- An accepted list of rates is written in full, over whatever was there. -/
theorem setRatesFrom_success {rates rates' : List MeterRate} {idx : ℕ}
    {configs : List RateConfig} (hlen : rates.length = idx + configs.length)
    (h : setRatesFrom rates idx configs = (.success, rates')) :
    rates' = rates.take idx ++ configs.mapIdx fun i config => config.configured (idx + i) := by
  induction configs generalizing rates idx with
  | nil =>
    obtain rfl : rates = rates' := by simpa [setRatesFrom] using h
    simp at hlen
    simp [List.take_of_length_le hlen.le]
  | cons config configs ih =>
    unfold setRatesFrom at h
    split at h
    next rates₁ heq =>
      have hset := setRate_success heq
      have hlen₁ : rates₁.length = idx + 1 + configs.length := by
        rw [hset, List.length_set, hlen, List.length_cons]
        omega
      have hidx : idx < rates.length := by
        rw [hlen, List.length_cons]
        omega
      rw [ih hlen₁ h, hset, List.mapIdx_cons, List.take_set,
        List.take_add_one, List.getElem?_eq_getElem hidx, Option.toList_some,
        List.set_append_right _ _ (by simp)]
      simp [List.length_take, hidx.le, Nat.add_assoc, Nat.add_comm 1]
    next code rates₁ hne heq =>
      obtain rfl : code = .success := ((Prod.mk.injEq ..).mp h).1
      exact absurd rfl hne

theorem setRates_success {m m' : Meter} {configs : List RateConfig}
    (h : m.setRates configs = (.success, m')) :
    m' = { m with rates := (configs.mapIdx RateConfig.configured).reverse, configured := true }
      := by
  unfold setRates at h
  split at h
  · simp at h
  · next hlen =>
    split at h
    next rates heq =>
      have hrates := setRatesFrom_success (by simpa using (not_not.mp hlen).symm) heq
      obtain rfl := ((Prod.mk.injEq ..).mp h).2
      simp [hrates]
    next code rates hne heq =>
      obtain rfl : code = .success := ((Prod.mk.injEq ..).mp h).1
      exact absurd rfl hne

end Meter

/-! ## One packet -/

/-- The bucket `b`, refilled up to `last`, stands for a rate refilled less often. -/
structure MeterRate.Tracks (last : ℕ) (rate : MeterRate) (b : Bucket) : Prop where
  infoRate : rate.infoRate = b.rate
  nonneg : 0 ≤ b.rate
  burstSize : rate.burstSize = b.burst
  color : rate.color = b.color
  tokensLast : rate.tokensLast ≤ earned b.rate last
  tokens : rate.tokens ≤ b.burst
  level : b.tokens = refill b.burst rate.tokens (earned b.rate last - rate.tokensLast)

namespace MeterRate.Tracks

theorem configured (idx : ℕ) {config : RateConfig} (h : 0 ≤ config.infoRate) :
    Tracks 0 (config.configured idx) (config.bucket idx) where
  infoRate := rfl
  nonneg := h
  burstSize := rfl
  color := rfl
  tokensLast := Nat.zero_le _
  tokens := le_refl _
  level := by simp [RateConfig.configured, RateConfig.bucket, refill]

variable {last now : ℕ} {rate : MeterRate} {b : Bucket}

/-- A rate that the loop does not get to: its bucket alone is refilled. -/
theorem skip (h : rate.Tracks last b) (hnow : last ≤ now) :
    rate.Tracks now (b.refillTo last now) where
  infoRate := h.infoRate
  nonneg := h.nonneg
  burstSize := h.burstSize
  color := h.color
  tokensLast := h.tokensLast.trans (earned_mono h.nonneg hnow)
  tokens := h.tokens
  level := by
    have hlast := h.tokensLast
    have hearn := earned_mono h.nonneg hnow
    show refill b.burst b.tokens _ = refill b.burst rate.tokens _
    rw [h.level, refill_refill]
    congr 1
    show _ = earned b.rate now - rate.tokensLast
    omega

/-- A rate that the loop refills holds as many tokens as its bucket. -/
theorem refilled (h : rate.Tracks last b) (hnow : last ≤ now) :
    refill rate.burstSize rate.tokens (earned rate.infoRate now - rate.tokensLast) =
      (b.refillTo last now).tokens := by
  have hlevel := (h.skip hnow).level
  rw [hlevel, h.burstSize, h.infoRate]
  rfl

/-- A rate that the loop refills, with what is left of its tokens. -/
theorem refill_to (h : rate.Tracks last b) (tokens : ℕ)
    (htokens : tokens ≤ (b.refillTo last now).tokens) :
    ({ rate with tokensLast := earned rate.infoRate now, tokens } : MeterRate).Tracks now
      { b.refillTo last now with tokens } where
  infoRate := h.infoRate
  nonneg := h.nonneg
  burstSize := h.burstSize
  color := h.color
  tokensLast := by rw [h.infoRate]; rfl
  tokens := htokens.trans (refill_le _ _ _)
  level := by
    have hle : tokens ≤ b.burst := htokens.trans (refill_le _ _ _)
    show tokens = refill b.burst tokens (earned b.rate now - earned rate.infoRate now)
    rw [h.infoRate, Nat.sub_self, refill_zero hle]

end MeterRate.Tracks

namespace Meter

/-- The loop of `execute` gives the colour of the marker and keeps the relation to it. -/
theorem executeFrom_tracks {last now input : ℕ} {rates : List MeterRate} {bs : List Bucket}
    (h : List.Forall₂ (MeterRate.Tracks last) rates bs) (hnow : last ≤ now)
    (hwrap : ∀ rate ∈ rates, earned rate.infoRate now < 2 ^ 64 ∧
      rate.tokens + (earned rate.infoRate now - rate.tokensLast) < 2 ^ 64) :
    ∃ rates', executeFrom now input rates =
        some ((charge input (bs.map (Bucket.refillTo last now))).1, rates') ∧
      List.Forall₂ (MeterRate.Tracks now) rates'
        (charge input (bs.map (Bucket.refillTo last now))).2 := by
  induction h with
  | nil => exact ⟨[], rfl, .nil⟩
  | @cons rate b rates bs hrate hrates ih =>
    obtain ⟨hcount, hsum⟩ := hwrap rate (by simp)
    obtain ⟨rates', hrun, htracks⟩ := ih fun r hr => hwrap r (by simp [hr])
    have hcount' : ((now : ℚ) * rate.infoRate).floor.toNat % 2 ^ 64 = earned rate.infoRate now :=
      Nat.mod_eq_of_lt hcount
    have horder : ¬ earned rate.infoRate now < rate.tokensLast := by
      have hle := (hrate.skip hnow).tokensLast
      rw [hrate.infoRate]
      exact not_lt.mpr hle
    have hfill : min ((rate.tokens + (earned rate.infoRate now - rate.tokensLast)) % 2 ^ 64)
        rate.burstSize = (b.refillTo last now).tokens := by
      rw [Nat.mod_eq_of_lt hsum, ← hrate.refilled hnow]
      rfl
    rw [List.map_cons]
    unfold executeFrom charge
    dsimp only
    rw [hcount', if_neg horder, hfill]
    by_cases hshort : (b.refillTo last now).tokens < input
    · -- this rate gives the colour, the rates after it are not refilled
      rw [if_pos hshort, if_pos hshort]
      have hkept : List.Forall₂ (MeterRate.Tracks now) rates
          (bs.map (Bucket.refillTo last now)) := by
        rw [List.forall₂_map_right_iff]
        exact hrates.imp fun r b hr => hr.skip hnow
      exact ⟨_, congrArg some (Prod.ext hrate.color rfl),
        .cons (hrate.refill_to _ le_rfl) hkept⟩
    · rw [if_neg hshort, if_neg hshort, hrun]
      exact ⟨_, rfl, .cons (hrate.refill_to _ (Nat.sub_le _ _)) htracks⟩

/-- A meter and a marker with the buckets of its rates. -/
structure Follows (m : Meter) (marker : Marker) : Prop where
  configured : m.configured = true
  rates : List.Forall₂ (MeterRate.Tracks marker.last) m.rates marker.buckets

theorem Follows.of_setRates {m m' : Meter} {configs : List RateConfig}
    (h : m.setRates configs = (.success, m')) (hrate : ∀ config ∈ configs, 0 ≤ config.infoRate) :
    m'.Follows (referenceMarker configs) := by
  rw [setRates_success h]
  refine ⟨rfl, ?_⟩
  show List.Forall₂ _ (configs.mapIdx RateConfig.configured).reverse
    (configs.mapIdx RateConfig.bucket).reverse
  rw [List.forall₂_reverse_iff, List.forall₂_iff_get]
  refine ⟨by simp, fun i hi _ => ?_⟩
  have hidx : i < configs.length := by simpa using hi
  have htracks := MeterRate.Tracks.configured i (hrate _ (List.getElem_mem hidx))
  simpa [referenceMarker] using htracks

/-- One packet: the meter gives the colour of the marker. -/
theorem Follows.execute {m : Meter} {marker : Marker} {now ingressLength : ℕ}
    (h : m.Follows marker) (hnow : marker.last ≤ now) (hwrap : m.NoWrap (now, ingressLength)) :
    ∃ m', m.execute now ingressLength =
        some ((marker.mark now (m.input ingressLength)).1, m') ∧
      m'.Follows (marker.mark now (m.input ingressLength)).2 ∧ m'.packets = m.packets := by
  obtain ⟨rates', hrun, htracks⟩ := executeFrom_tracks
    h.rates hnow hwrap
  refine ⟨{ m with rates := rates' }, ?_, ⟨h.configured, htracks⟩, rfl⟩
  have hrates : executeFrom now (if m.packets then 1 else ingressLength) m.rates = _ := hrun
  rw [Meter.execute, if_pos h.configured, hrates]
  rfl

/-- **Refinement.**  A run of the meter gives the colours of the marker. -/
theorem Follows.marks {m : Meter} {marker : Marker} {arrivals : List (ℕ × ℕ)}
    (h : m.Follows marker) (hord : InOrder arrivals)
    (hlast : ∀ p ∈ arrivals, marker.last ≤ p.1) (hwrap : RunMeets pass NoWrap m arrivals) :
    ∃ m' marker', m.marks arrivals = some (marker.colors (m.costs arrivals), m') ∧
      m'.Follows marker' := by
  induction arrivals generalizing m marker with
  | nil => exact ⟨m, marker, rfl, h⟩
  | cons p arrivals ih =>
    obtain ⟨now, ingressLength⟩ := p
    obtain ⟨hnow, hord'⟩ := List.pairwise_cons.mp hord
    obtain ⟨m₁, hrun, hfollows, hpackets⟩ :=
      h.execute (hlast (now, ingressLength) (by simp)) hwrap.1
    have hpass : m.pass (now, ingressLength) = some m₁ := by
      unfold pass
      rw [hrun]
      rfl
    obtain ⟨m₂, marker₂, hruns, hfollows₂⟩ := ih hfollows hord' hnow (hwrap.2 m₁ hpass)
    have hcosts : m₁.costs arrivals = m.costs arrivals := by
      unfold costs input
      rw [hpackets]
    refine ⟨m₂, marker₂, ?_, hfollows₂⟩
    unfold Meter.marks
    rw [hrun]
    show (do let (colors, m) ← m₁.marks arrivals; pure (_ :: colors, m)) = _
    rw [hruns, hcosts]
    rfl

theorem Follows.tokens_le {m : Meter} {marker : Marker} (h : m.Follows marker) :
    ∀ rate ∈ m.rates, rate.tokens ≤ rate.burstSize := by
  intro rate hrate
  obtain ⟨i, hi, rfl⟩ := List.getElem_of_mem hrate
  have htracks := h.rates.get hi (h.rates.length_eq ▸ hi)
  exact htracks.burstSize ▸ htracks.tokens

end Meter

/-! ## Conformance -/

/-- The buckets of the reference marker go from the highest colour to the lowest. -/
theorem descending_referenceMarker (configs : List RateConfig) :
    Descending (referenceMarker configs).buckets := by
  show ((configs.mapIdx RateConfig.bucket).reverse).Pairwise _
  rw [List.pairwise_reverse, List.pairwise_iff_getElem]
  intro i j hi hj hij
  simp only [List.getElem_mapIdx, RateConfig.bucket]
  omega

theorem bucket_referenceMarker {configs : List RateConfig} {idx : ℕ} {config : RateConfig}
    (h : configs[idx]? = some config) :
    ∃ i : ℕ, (referenceMarker configs).buckets[i]? = some (config.bucket idx) := by
  have hmem : config.bucket idx ∈ configs.mapIdx RateConfig.bucket :=
    List.mem_iff_getElem?.mpr ⟨idx, by simp [h]⟩
  exact List.mem_iff_getElem?.mp (List.mem_reverse.mpr hmem)

/-- The arrival times of the packets are those the marker sees. -/
theorem Meter.inOrder_costs {m : Meter} {arrivals : List (ℕ × ℕ)} (h : InOrder arrivals) :
    InOrder (m.costs arrivals) := by
  unfold InOrder Meter.costs at *
  rwa [List.pairwise_map]

/-- **Token-bucket conformance.**  A meter whose rates were accepted gives every packet the
colour of the reference marker, before any wrap of 64 bits; its buckets stay within their
burst sizes, and the traffic that conforms to a rate is bounded over every interval. -/
theorem execute_conforms {m m' : Meter} {configs : List RateConfig} {arrivals : List (ℕ × ℕ)}
    (hset : m.setRates configs = (.success, m'))
    (hrate : ∀ config ∈ configs, 0 ≤ config.infoRate) (hord : InOrder arrivals)
    (hwrap : RunMeets Meter.pass Meter.NoWrap m' arrivals) :
    ∃ colors m'', m'.marks arrivals = some (colors, m'') ∧
      colors = (referenceMarker configs).colors (m'.costs arrivals) ∧
      (∀ rate ∈ m''.rates, rate.tokens ≤ rate.burstSize) ∧
      ∀ idx config t₁ t₂, configs[idx]? = some config → t₁ ≤ t₂ →
        (conforming (idx + 1) t₁ t₂ (m'.costs arrivals) colors : ℚ) <
          config.burstSize + config.infoRate * (t₂ - t₁) + 1 := by
  have hfollows := Meter.Follows.of_setRates hset hrate
  obtain ⟨m'', marker', hrun, hfollows'⟩ := hfollows.marks hord (fun _ _ => Nat.zero_le _) hwrap
  refine ⟨_, m'', hrun, rfl, hfollows'.tokens_le, ?_⟩
  intro idx config t₁ t₂ hidx ht
  obtain ⟨i, hi⟩ := bucket_referenceMarker hidx
  have hrate' : 0 ≤ (config.bucket idx).rate := hrate config (List.mem_of_getElem? hidx)
  have hbound := Marker.conforming_le (descending_referenceMarker configs) rfl hi hrate'
    (Meter.inOrder_costs hord (m := m')) ht
  exact hbound

/-- Two rates in bytes: committed 1/2 and peak 2 bytes per microsecond, both with bursts. -/
theorem execute_conforms_two_rates :
    ∃ m' colors m'', (⟨false, [{}, {}], false⟩ : Meter).setRates [⟨1/2, 3⟩, ⟨2, 5⟩] = (.success, m') ∧
      m'.marks [(0, 4), (1, 3), (1, 9), (8, 2)] = some (colors, m'') ∧ colors = [1, 0, 2, 0] ∧
      (conforming 1 0 8 (m'.costs [(0, 4), (1, 3), (1, 9), (8, 2)]) colors : ℚ) < 3 + 1/2 * 8 + 1 := by
  have hset : (⟨false, [{}, {}], false⟩ : Meter).setRates [⟨1/2, 3⟩, ⟨2, 5⟩] =
      (.success, ⟨false, [⟨true, 2, 5, 5, 0, 2⟩, ⟨true, 1/2, 3, 3, 0, 1⟩], true⟩) := by
    decide +kernel
  obtain ⟨colors, m'', hrun, hcolors, -, hbound⟩ := execute_conforms hset (by decide +kernel)
    (by decide : InOrder [(0, 4), (1, 3), (1, 9), (8, 2)]) (by decide +kernel)
  refine ⟨_, colors, m'', hset, hrun, by rw [hcolors]; decide +kernel, ?_⟩
  have h := hbound 0 ⟨1/2, 3⟩ 0 8 rfl (by decide)
  norm_num at h ⊢
  exact h

end Bm
