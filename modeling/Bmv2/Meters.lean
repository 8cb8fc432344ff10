/-
# Counters and meters

`Counter` (`counters.h`) and `Meter` (`meters.h`, `meters.cpp`).  A rate is a C++
double, which is an exact rational here.
-/
import Mathlib

namespace Bm

/-! ## Counters -/

/-- `Counter`: 64-bit numbers of bytes and packets. -/
structure Counter where
  bytes : ℕ := 0
  packets : ℕ := 0
  deriving DecidableEq

/-- `Counter::increment_counter`. -/
def Counter.increment (c : Counter) (ingressLength : ℕ) : Counter where
  bytes := (c.bytes + ingressLength) % 2 ^ 64
  packets := (c.packets + 1) % 2 ^ 64

/-! ## Meters -/

/-- `Meter::MeterErrorCode`, the codes that a meter returns. -/
inductive MeterErrorCode where
  | success
  | badRatesList
  | invalidInfoRateValue
  deriving DecidableEq

/-- `Meter::rate_config_t`. -/
structure RateConfig where
  infoRate : ℚ
  burstSize : ℕ
  deriving DecidableEq

/-- `Meter::MeterRate`. -/
structure MeterRate where
  valid : Bool := false
  infoRate : ℚ := 0
  burstSize : ℕ := 0
  tokens : ℕ := 0
  tokensLast : ℕ := 0
  color : ℕ := 0
  deriving DecidableEq

/-- `Meter`; `packets` tells a meter of packets from one of bytes. -/
structure Meter where
  packets : Bool
  rates : List MeterRate
  configured : Bool := false
  deriving DecidableEq

namespace Meter

/-- `Meter::set_rate`: the rate is written before it is compared with the one before. -/
def setRate (rates : List MeterRate) (idx : ℕ) (config : RateConfig) :
    MeterErrorCode × List MeterRate :=
  let rates := rates.set idx
    { valid := true, infoRate := config.infoRate, burstSize := config.burstSize,
      tokens := config.burstSize, tokensLast := 0, color := idx + 1 }
  if 0 < idx ∧ config.infoRate < ((rates[idx - 1]?.map MeterRate.infoRate).getD 0) then
    (.invalidInfoRateValue, rates)
  else (.success, rates)

/-- The loop of `set_rates`: it stops at the first rate that is refused. -/
def setRatesFrom (rates : List MeterRate) (idx : ℕ) : List RateConfig → MeterErrorCode × List MeterRate
  | [] => (.success, rates)
  | config :: configs =>
      match setRate rates idx config with
      | (.success, rates) => setRatesFrom rates (idx + 1) configs
      | (code, rates) => (code, rates)

/-- `Meter::set_rates`. -/
def setRates (m : Meter) (configs : List RateConfig) : MeterErrorCode × Meter :=
  if configs.length ≠ m.rates.length then (.badRatesList, m)
  else
    match setRatesFrom m.rates 0 configs with
    | (.success, rates) => (.success, { m with rates := rates.reverse, configured := true })
    | (code, rates) => (code, { m with rates })

/-- `Meter::get_rates`. -/
def getRates (m : Meter) : List RateConfig :=
  if m.configured then (m.rates.map fun r => ⟨r.infoRate, r.burstSize⟩).reverse else []

/-- The loop of `Meter::execute`: the rates up to the one that gives the colour are
refilled and charged. -/
def executeFrom (microsSinceInit input : ℕ) : List MeterRate → Option (ℕ × List MeterRate)
  | [] => some (0, [])
  | rate :: rates => do
      let tokensSinceInit := (microsSinceInit * rate.infoRate).floor.toNat % 2 ^ 64
      if tokensSinceInit < rate.tokensLast then none
      else
        let newTokens := tokensSinceInit - rate.tokensLast
        let tokens := min ((rate.tokens + newTokens) % 2 ^ 64) rate.burstSize
        let rate := { rate with tokensLast := tokensSinceInit, tokens }
        if tokens < input then some (rate.color, rate :: rates)
        else
          let (color, rates) ← executeFrom microsSinceInit input rates
          pure (color, { rate with tokens := tokens - input } :: rates)

/-- `Meter::execute`: the colour of a packet. -/
def execute (m : Meter) (microsSinceInit ingressLength : ℕ) : Option (ℕ × Meter) :=
  if m.configured then do
    let (color, rates) ← executeFrom microsSinceInit (if m.packets then 1 else ingressLength) m.rates
    pure (color, { m with rates })
  else some (0, m)

end Meter

end Bm
