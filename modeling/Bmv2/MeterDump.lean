/-
# Dumps of meters

`Meter::serialize` and `Meter::deserialize` (`meters.cpp`).  A dump lists the rates as the meter
keeps them, the highest first, and `deserialize` installs them one by one with `set_rate`, which binds
the colour to the place of the rate; `set_rates` turns the rates round after that.

* `deserialize_serialize`: what a dump makes of a new meter;
* `dump_restores_iff`: when the restored meter marks like the dumped one with full buckets.
-/
import Bmv2.MeterSpec

namespace Bm

/-- The words of a dump; numbers are printed exactly. -/
inductive DumpWord where
  | flag (configured : Bool)
  | rate (infoRate : ℚ)
  | size (burstSize : ℕ)
  deriving DecidableEq

namespace Meter

/-- The constructor. -/
def create (packets : Bool) (rateCount : ℕ) : Meter where
  packets := packets
  rates := List.replicate rateCount {}

/-- `Meter::serialize`. -/
def serialize (m : Meter) : List DumpWord :=
  .flag m.configured ::
    if m.configured then m.rates.flatMap fun rate => [.rate rate.infoRate, .size rate.burstSize]
    else []

/-- The loop of `Meter::deserialize` from the place `idx` on; the code that `set_rate` returns is not
looked at.  Another word than the one that is read is `none`. -/
def deserializeFrom (rates : List MeterRate) (idx : ℕ) :
    ℕ → List DumpWord → Option (List MeterRate × List DumpWord)
  | 0, input => some (rates, input)
  | n + 1, .rate infoRate :: .size burstSize :: input =>
      deserializeFrom (setRate rates idx ⟨infoRate, burstSize⟩).2 (idx + 1) n input
  | _ + 1, _ => none

/-- `Meter::deserialize`. -/
def deserialize (m : Meter) : List DumpWord → Option (Meter × List DumpWord)
  | .flag configured :: input =>
      if configured then
        (deserializeFrom m.rates 0 m.rates.length input).map fun (rates, input) =>
          ({ m with rates, configured }, input)
      else some ({ m with configured }, input)
  | _ => none

/-- The meter with full buckets, as `set_rate` fills them. -/
def full (m : Meter) : Meter :=
  { m with rates := m.rates.map fun rate => { rate with tokens := rate.burstSize, tokensLast := 0 } }

/-- The meter that a dump makes of a new one. -/
def restored (m : Meter) : Meter where
  packets := m.packets
  rates :=
    if m.configured then
      m.rates.mapIdx fun i rate => RateConfig.configured i ⟨rate.infoRate, rate.burstSize⟩
    else List.replicate m.rates.length {}
  configured := m.configured

/-! ## What a dump restores -/

theorem deserializeFrom_eq (todo : List MeterRate) (before : List MeterRate) {rates : List MeterRate}
    (hlen : rates.length = before.length + todo.length) (hbefore : rates.take before.length = before)
    (rest : List DumpWord) :
    deserializeFrom rates before.length todo.length
        ((todo.flatMap fun rate => [.rate rate.infoRate, .size rate.burstSize]) ++ rest) =
      some (before ++ todo.mapIdx fun i rate =>
        RateConfig.configured (before.length + i) ⟨rate.infoRate, rate.burstSize⟩, rest) := by
  induction todo generalizing before rates with
  | nil =>
    rw [List.length_nil, Nat.add_zero] at hlen
    rw [← hlen, List.take_length] at hbefore
    simp [deserializeFrom, hbefore]
  | cons rate todo ih =>
    rw [List.length_cons] at hlen
    have hset : (setRate rates before.length ⟨rate.infoRate, rate.burstSize⟩).2 =
        rates.set before.length (RateConfig.configured before.length
          ⟨rate.infoRate, rate.burstSize⟩) := by
      unfold setRate
      dsimp only
      split <;> rfl
    have htake : (rates.set before.length (RateConfig.configured before.length
        ⟨rate.infoRate, rate.burstSize⟩)).take (before ++ [RateConfig.configured before.length
          ⟨rate.infoRate, rate.burstSize⟩]).length =
        before ++ [RateConfig.configured before.length ⟨rate.infoRate, rate.burstSize⟩] := by
      rw [List.length_append, List.length_singleton, List.take_add_one, List.take_set_of_le le_rfl,
        hbefore, List.getElem?_set_self (by omega)]
      rfl
    have hstep := ih (before ++ [_]) (by simp; omega) htake
    rw [List.length_append, List.length_singleton] at hstep
    simp only [List.flatMap_cons, List.length_cons, List.cons_append, List.nil_append, deserializeFrom]
    rw [hset, hstep, List.mapIdx_cons, List.append_assoc]
    simp [Nat.add_assoc, Nat.add_comm 1]

/-- **A dump** is read back in full. -/
theorem deserialize_serialize (m : Meter) (rest : List DumpWord) :
    (create m.packets m.rates.length).deserialize (m.serialize ++ rest) = some (m.restored, rest) := by
  have hlen : (create m.packets m.rates.length).rates.length = m.rates.length :=
    List.length_replicate
  rw [serialize, List.cons_append, deserialize, hlen]
  by_cases hconfigured : m.configured = true
  · have hloop := deserializeFrom_eq m.rates [] (by rw [hlen]; simp) rfl rest
    rw [if_pos hconfigured, if_pos hconfigured]
    rw [List.length_nil] at hloop
    rw [hloop, restored, if_pos hconfigured]
    simp [create]
  · rw [if_neg hconfigured, if_neg hconfigured, List.nil_append, restored, if_neg hconfigured]
    rfl

theorem getRates_restored (m : Meter) : m.restored.getRates = m.getRates := by
  rw [getRates, getRates, restored]
  by_cases hconfigured : m.configured = true
  · rw [if_pos hconfigured, if_pos hconfigured, if_pos hconfigured]
    congr 1
    apply List.ext_getElem?
    intro i
    rw [List.getElem?_map, List.getElem?_mapIdx, List.getElem?_map]
    cases m.rates[i]? <;> rfl
  · rw [if_neg hconfigured, if_neg hconfigured]

/-! ## Colours of a restored meter -/

/-- The tokens that the loop of `execute` finds in a bucket; `none` when the clock has gone back. -/
def available (micros : ℕ) (rate : MeterRate) : Option ℕ :=
  let tokensSinceInit := (micros * rate.infoRate).floor.toNat % 2 ^ 64
  if tokensSinceInit < rate.tokensLast then none
  else some (min ((rate.tokens + (tokensSinceInit - rate.tokensLast)) % 2 ^ 64) rate.burstSize)

/-- The loop of `execute` stops at the rate at place `i`. -/
def StopsAt (micros input : ℕ) (rates : List MeterRate) (i : ℕ) : Prop :=
  (∃ rate tokens, rates[i]? = some rate ∧ available micros rate = some tokens ∧ tokens < input) ∧
    ∀ j < i, ∀ rate, rates[j]? = some rate → ∃ tokens, available micros rate = some tokens ∧
      input ≤ tokens

/-- With full buckets the meter can run short of tokens of the rate at place `i`. -/
def RunsShort (m : Meter) (i : ℕ) : Prop :=
  ∃ arrivals colors m' micros ingressLength, m.full.marks arrivals = some (colors, m') ∧
    StopsAt micros (m.input ingressLength) m'.rates i

/-- A dump of the meter restores its rates, and a meter that marks like this one with full buckets. -/
def Restores (m : Meter) : Prop :=
  ∀ rest, ∃ m', (create m.packets m.rates.length).deserialize (m.serialize ++ rest) = some (m', rest) ∧
    m'.getRates = m.getRates ∧
    ∀ arrivals, (m'.marks arrivals).map Prod.fst = (m.full.marks arrivals).map Prod.fst

/-- Two rates with the same bucket. -/
structure SameBucket (rate rate' : MeterRate) : Prop where
  infoRate : rate.infoRate = rate'.infoRate
  burstSize : rate.burstSize = rate'.burstSize
  tokens : rate.tokens = rate'.tokens
  tokensLast : rate.tokensLast = rate'.tokensLast

/-- The rates keep their colours. -/
def SameColors (rates rates' : List MeterRate) : Prop :=
  rates.map MeterRate.color = rates'.map MeterRate.color

/-- The rate with other tokens, refilled up to now. -/
def refilled (micros : ℕ) (rate : MeterRate) (tokens : ℕ) : MeterRate :=
  { rate with tokensLast := (micros * rate.infoRate).floor.toNat % 2 ^ 64, tokens }

theorem executeFrom_eq_available (micros input : ℕ) (rate : MeterRate) (rates : List MeterRate) :
    executeFrom micros input (rate :: rates) = (available micros rate).bind fun tokens =>
      if tokens < input then some (rate.color, refilled micros rate tokens :: rates)
      else (executeFrom micros input rates).map fun (color, rates) =>
        (color, refilled micros rate (tokens - input) :: rates) := by
  rw [executeFrom, available]
  dsimp only
  split
  · rfl
  · rw [Option.bind_some]
    split
    · rfl
    · cases executeFrom micros input rates <;> rfl

namespace SameBucket

variable {rate rate' : MeterRate}

theorem available_eq (h : SameBucket rate rate') (micros : ℕ) :
    available micros rate = available micros rate' := by
  rw [available, available, h.infoRate, h.tokensLast, h.tokens, h.burstSize]

theorem refilled (h : SameBucket rate rate') (micros tokens : ℕ) :
    SameBucket (refilled micros rate tokens) (Meter.refilled micros rate' tokens) where
  infoRate := h.infoRate
  burstSize := h.burstSize
  tokens := rfl
  tokensLast := by
    rw [Meter.refilled, Meter.refilled, h.infoRate]

end SameBucket

theorem stopsAt_zero {micros input tokens : ℕ} {rate : MeterRate} (rates : List MeterRate)
    (htokens : available micros rate = some tokens) (hshort : tokens < input) :
    StopsAt micros input (rate :: rates) 0 :=
  ⟨⟨rate, tokens, rfl, htokens, hshort⟩, fun j hj => absurd hj j.not_lt_zero⟩

theorem stopsAt_succ {micros input tokens i : ℕ} {rate : MeterRate} {rates : List MeterRate}
    (htokens : available micros rate = some tokens) (hpays : input ≤ tokens) :
    StopsAt micros input (rate :: rates) (i + 1) ↔ StopsAt micros input rates i := by
  refine and_congr_right fun _ => ⟨fun h j hj => h (j + 1) (by omega), fun h j hj => ?_⟩
  cases j with
  | zero =>
    rintro r hr
    obtain rfl : rate = r := Option.some.inj hr
    exact ⟨tokens, htokens, hpays⟩
  | succ j => exact h j (by omega)

/-- Rates with the same buckets are charged alike, and each gives its own colour. -/
theorem executeFrom_sameBucket (micros input : ℕ) {rates rates' : List MeterRate}
    (h : List.Forall₂ SameBucket rates rates') :
    (executeFrom micros input rates = none ∧ executeFrom micros input rates' = none) ∨
      ∃ color color' after after', executeFrom micros input rates = some (color, after) ∧
        executeFrom micros input rates' = some (color', after') ∧
        List.Forall₂ SameBucket after after' ∧ SameColors after rates ∧ SameColors after' rates' ∧
        ((color = 0 ∧ color' = 0) ∨ ∃ i rate rate', rates[i]? = some rate ∧ rates'[i]? = some rate' ∧
          StopsAt micros input rates i ∧ color = rate.color ∧ color' = rate'.color) := by
  induction h with
  | nil => exact .inr ⟨0, 0, [], [], rfl, rfl, .nil, rfl, rfl, .inl ⟨rfl, rfl⟩⟩
  | @cons rate rate' rates rates' hrate hrates ih =>
    rw [executeFrom_eq_available, executeFrom_eq_available, ← hrate.available_eq]
    cases htokens : available micros rate with
    | none => exact .inl ⟨rfl, rfl⟩
    | some tokens =>
      rw [Option.bind_some, Option.bind_some]
      by_cases hshort : tokens < input
      · rw [if_pos hshort, if_pos hshort]
        exact .inr ⟨_, _, _, _, rfl, rfl, .cons (hrate.refilled micros tokens) hrates, rfl, rfl,
          .inr ⟨0, rate, rate', rfl, rfl, stopsAt_zero rates htokens hshort, rfl, rfl⟩⟩
      · rw [if_neg hshort, if_neg hshort]
        rcases ih with ⟨hnone, hnone'⟩ |
          ⟨color, color', after, after', hrun, hrun', hafter, hcolors, hcolors', hstop⟩
        · rw [hnone, hnone']
          exact .inl ⟨rfl, rfl⟩
        · rw [hrun, hrun']
          refine .inr ⟨color, color', _, _, rfl, rfl, .cons (hrate.refilled micros _) hafter,
            congrArg (_ :: ·) hcolors, congrArg (_ :: ·) hcolors', ?_⟩
          rcases hstop with hzero | ⟨i, r, r', hr, hr', hstop, hcolor, hcolor'⟩
          · exact .inl hzero
          · exact .inr ⟨i + 1, r, r', hr, hr', (stopsAt_succ htokens (not_lt.mp hshort)).mpr hstop, hcolor,
              hcolor'⟩

/-- Where the loop stops, the rate gives its colour. -/
theorem executeFrom_of_stopsAt {micros input i : ℕ} {rates : List MeterRate} {rate : MeterRate}
    (h : StopsAt micros input rates i) (hrate : rates[i]? = some rate) :
    ∃ after, executeFrom micros input rates = some (rate.color, after) := by
  induction rates generalizing i with
  | nil => cases hrate
  | cons r rates ih =>
    rw [executeFrom_eq_available]
    cases i with
    | zero =>
      obtain rfl : r = rate := Option.some.inj hrate
      obtain ⟨⟨r', tokens, hr', htokens, hshort⟩, -⟩ := h
      obtain rfl : r = r' := Option.some.inj hr'
      rw [htokens, Option.bind_some, if_pos hshort]
      exact ⟨_, rfl⟩
    | succ i =>
      obtain ⟨tokens, htokens, hpays⟩ := h.2 0 (Nat.succ_pos i) r rfl
      obtain ⟨after, hrun⟩ := ih ((stopsAt_succ htokens hpays).mp h) hrate
      rw [htokens, Option.bind_some, if_neg (not_lt.mpr hpays), hrun]
      exact ⟨_, rfl⟩

theorem StopsAt.sameBucket {micros input i : ℕ} {rates rates' : List MeterRate}
    (h : StopsAt micros input rates i) (hsame : List.Forall₂ SameBucket rates rates') :
    StopsAt micros input rates' i := by
  induction hsame generalizing i with
  | nil => exact h
  | @cons rate rate' rates rates' hrate hrates ih =>
    cases i with
    | zero =>
      obtain ⟨⟨r, tokens, hr, htokens, hshort⟩, -⟩ := h
      obtain rfl : rate = r := Option.some.inj hr
      rw [hrate.available_eq] at htokens
      exact stopsAt_zero rates' htokens hshort
    | succ i =>
      obtain ⟨tokens, htokens, hpays⟩ := h.2 0 (Nat.succ_pos i) rate rfl
      have hrest := ih ((stopsAt_succ htokens hpays).mp h)
      rw [hrate.available_eq] at htokens
      exact (stopsAt_succ htokens hpays).mpr hrest

/-! ## Runs -/

/-- The meters have the same buckets, each with its own colours. -/
structure Alike (m m' : Meter) : Prop where
  packets : m.packets = m'.packets
  configured : m.configured = true
  configured' : m'.configured = true
  rates : List.Forall₂ SameBucket m.rates m'.rates

/-- What a packet or a sequence of packets leaves of the colours. -/
structure KeepsColors (m after : Meter) : Prop where
  packets : after.packets = m.packets
  colors : SameColors after.rates m.rates

variable {m m' : Meter}

theorem KeepsColors.trans {m₁ m₂ m₃ : Meter} (h : KeepsColors m₁ m₂) (h' : KeepsColors m₂ m₃) :
    KeepsColors m₁ m₃ where
  packets := h'.packets.trans h.packets
  colors := h'.colors.trans h.colors

theorem KeepsColors.color {after : Meter} (h : KeepsColors m after) {i : ℕ} {rate : MeterRate}
    (hrate : after.rates[i]? = some rate) : ∃ before, m.rates[i]? = some before ∧
      before.color = rate.color := by
  have hcolor := congrArg (·[i]?) h.colors
  simp only [List.getElem?_map, hrate, Option.map_some] at hcolor
  exact Option.map_eq_some_iff.mp hcolor.symm

/-- **Step lemma.**  A packet leaves two such meters alike. -/
theorem Alike.execute (h : Alike m m') (micros ingressLength : ℕ) :
    (m.execute micros ingressLength = none ∧ m'.execute micros ingressLength = none) ∨
      ∃ color color' after after', m.execute micros ingressLength = some (color, after) ∧
        m'.execute micros ingressLength = some (color', after') ∧ Alike after after' ∧
        KeepsColors m after ∧ KeepsColors m' after' ∧
        ((color = 0 ∧ color' = 0) ∨ ∃ i rate rate', m.rates[i]? = some rate ∧
          m'.rates[i]? = some rate' ∧ StopsAt micros (m.input ingressLength) m.rates i ∧
          color = rate.color ∧ color' = rate'.color) := by
  have hinput : m'.input ingressLength = m.input ingressLength := by rw [input, input, h.packets]
  have hrun : ∀ n : Meter, n.configured = true → n.execute micros ingressLength =
      (executeFrom micros (n.input ingressLength) n.rates).map fun (color, rates) =>
        (color, { n with rates }) := by
    intro n hn
    rw [Meter.execute, if_pos hn, input]
    cases executeFrom micros (if n.packets then 1 else ingressLength) n.rates <;> rfl
  rw [hrun m h.configured, hrun m' h.configured', hinput]
  rcases executeFrom_sameBucket micros (m.input ingressLength) h.rates with
    ⟨hnone, hnone'⟩ | ⟨color, color', after, after', hsome, hsome', hafter, hcolors, hcolors', hstop⟩
  · rw [hnone, hnone']
    exact .inl ⟨rfl, rfl⟩
  · rw [hsome, hsome']
    exact .inr ⟨color, color', _, _, rfl, rfl, ⟨h.packets, h.configured, h.configured', hafter⟩,
      ⟨rfl, hcolors⟩, ⟨rfl, hcolors'⟩, hstop⟩

theorem marks_cons (m : Meter) (p : ℕ × ℕ) (arrivals : List (ℕ × ℕ)) :
    m.marks (p :: arrivals) = (m.execute p.1 p.2).bind fun r =>
      (r.2.marks arrivals).map fun r' => (r.1 :: r'.1, r'.2) := by
  rw [marks]
  cases m.execute p.1 p.2 with
  | none => rfl
  | some r =>
    obtain ⟨color, after⟩ := r
    simp only [Option.bind_eq_bind, Option.bind_some]
    cases after.marks arrivals <;> rfl

theorem marks_append (m : Meter) (arrivals arrivals' : List (ℕ × ℕ)) :
    m.marks (arrivals ++ arrivals') = (m.marks arrivals).bind fun r =>
      (r.2.marks arrivals').map fun r' => (r.1 ++ r'.1, r'.2) := by
  induction arrivals generalizing m with
  | nil =>
    rw [List.nil_append, marks, Option.bind_some]
    cases m.marks arrivals' <;> rfl
  | cons p arrivals ih =>
    rw [List.cons_append, marks_cons, marks_cons]
    cases m.execute p.1 p.2 with
    | none => rfl
    | some r =>
      simp only [Option.bind_some, ih]
      cases r.2.marks arrivals with
      | none => rfl
      | some r' =>
        simp only [Option.bind_some, Option.map_some]
        cases r'.2.marks arrivals' <;> rfl

/-- **Run lemma.**  Packets leave two such meters alike. -/
theorem Alike.marks (h : Alike m m') (arrivals : List (ℕ × ℕ)) :
    (m.marks arrivals = none ∧ m'.marks arrivals = none) ∨
      ∃ colors colors' after after', m.marks arrivals = some (colors, after) ∧
        m'.marks arrivals = some (colors', after') ∧ colors.length = colors'.length ∧
        Alike after after' ∧ KeepsColors m after ∧ KeepsColors m' after' := by
  induction arrivals generalizing m m' with
  | nil => exact .inr ⟨[], [], m, m', rfl, rfl, rfl, h, ⟨rfl, rfl⟩, ⟨rfl, rfl⟩⟩
  | cons p arrivals ih =>
    rw [marks_cons, marks_cons]
    rcases h.execute p.1 p.2 with ⟨hnone, hnone'⟩ |
      ⟨color, color', after, after', hrun, hrun', halike, hkeeps, hkeeps', -⟩
    · rw [hnone, hnone']
      exact .inl ⟨rfl, rfl⟩
    · rw [hrun, hrun', Option.bind_some, Option.bind_some]
      rcases ih halike with ⟨hnone, hnone'⟩ |
        ⟨colors, colors', last, last', hruns, hruns', hlength, halike', hlast, hlast'⟩
      · rw [hnone, hnone']
        exact .inl ⟨rfl, rfl⟩
      · rw [hruns, hruns']
        exact .inr ⟨_, _, _, _, rfl, rfl, congrArg (· + 1) hlength, halike', hkeeps.trans hlast,
          hkeeps'.trans hlast'⟩

/-- Where a meter stops on a packet, its own colour is given. -/
theorem execute_of_stopsAt {micros ingressLength i : ℕ} {rate : MeterRate}
    (hconfigured : m.configured = true) (h : StopsAt micros (m.input ingressLength) m.rates i)
    (hrate : m.rates[i]? = some rate) :
    ∃ after, m.execute micros ingressLength = some (rate.color, after) := by
  obtain ⟨after, hrun⟩ := executeFrom_of_stopsAt h hrate
  rw [input] at hrun
  rw [Meter.execute, if_pos hconfigured, hrun]
  exact ⟨_, rfl⟩

/-- Two meters that are alike mark alike when every rate at which they can stop has one colour. -/
theorem Alike.colors_eq (h : Alike m m')
    (hstops : ∀ arrivals colors after micros ingressLength i rate rate',
      m.marks arrivals = some (colors, after) →
      StopsAt micros (m.input ingressLength) after.rates i → m.rates[i]? = some rate →
      m'.rates[i]? = some rate' → rate.color = rate'.color) (arrivals : List (ℕ × ℕ)) :
    (m.marks arrivals).map Prod.fst = (m'.marks arrivals).map Prod.fst := by
  induction arrivals generalizing m m' with
  | nil => rfl
  | cons p arrivals ih =>
    rw [marks_cons, marks_cons]
    rcases h.execute p.1 p.2 with ⟨hnone, hnone'⟩ |
      ⟨color, color', after, after', hrun, hrun', halike, hkeeps, hkeeps', hcolor⟩
    · rw [hnone, hnone']
    · have hsame : color = color' := by
        rcases hcolor with ⟨rfl, rfl⟩ | ⟨i, rate, rate', hrate, hrate', hstop, rfl, rfl⟩
        · rfl
        · exact hstops [] [] m p.1 p.2 i rate rate' rfl hstop hrate hrate'
      have hrest := ih halike fun arrivals colors last micros ingressLength i rate rate' hruns hstop
          hrate hrate' => by
        obtain ⟨before, hbefore, hcolor⟩ := hkeeps.color hrate
        obtain ⟨before', hbefore', hcolor'⟩ := hkeeps'.color hrate'
        rw [← hcolor, ← hcolor']
        refine hstops (p :: arrivals) (color :: colors) last micros ingressLength i before before' ?_ ?_
          hbefore hbefore'
        · rw [marks_cons, hrun, Option.bind_some, hruns]
          rfl
        · rwa [input, hkeeps.packets, ← input] at hstop
      rw [hrun, hrun', Option.bind_some, Option.bind_some, hsame]
      cases hm : after.marks arrivals with
      | none =>
        rw [hm] at hrest
        rw [Option.map_eq_none_iff.mp hrest.symm]
      | some r =>
        rw [hm] at hrest
        obtain ⟨r', hr', hfst⟩ := Option.map_eq_some_iff.mp hrest.symm
        rw [hr', Option.map_some, Option.map_some, Option.map_some, Option.map_some, hfst]

/-! ## What is restored -/

theorem alike_full_restored (hconfigured : m.configured = true) : Alike m.full m.restored where
  packets := rfl
  configured := hconfigured
  configured' := hconfigured
  rates := by
    rw [full, restored, if_pos hconfigured, List.forall₂_map_left_iff, List.forall₂_iff_get]
    refine ⟨by simp, fun i hi hi' => ?_⟩
    simp only [List.get_eq_getElem, List.getElem_mapIdx]
    exact ⟨rfl, rfl, rfl, rfl⟩

theorem restored_color (hconfigured : m.configured = true) {i : ℕ} {rate : MeterRate}
    (hrate : m.restored.rates[i]? = some rate) : rate.color = i + 1 := by
  rw [restored, if_pos hconfigured, List.getElem?_mapIdx, Option.map_eq_some_iff] at hrate
  obtain ⟨before, -, rfl⟩ := hrate
  rfl

theorem full_color {i : ℕ} {rate : MeterRate} (hrate : m.full.rates[i]? = some rate) :
    ∃ before, m.rates[i]? = some before ∧ before.color = rate.color := by
  rw [full, List.getElem?_map, Option.map_eq_some_iff] at hrate
  obtain ⟨before, hbefore, rfl⟩ := hrate
  exact ⟨before, hbefore, rfl⟩

theorem restores_iff_marks (m : Meter) : m.Restores ↔ ∀ arrivals,
    (m.full.marks arrivals).map Prod.fst = (m.restored.marks arrivals).map Prod.fst := by
  constructor
  · intro h arrivals
    obtain ⟨m', hdump, -, hmarks⟩ := h []
    rw [deserialize_serialize] at hdump
    obtain rfl : m.restored = m' := (Prod.mk.inj (Option.some.inj hdump)).1
    exact (hmarks arrivals).symm
  · intro h rest
    exact ⟨m.restored, deserialize_serialize m rest, getRates_restored m, fun arrivals => (h arrivals).symm⟩

theorem restores_of_not_configured (hconfigured : m.configured = false) : m.Restores := by
  have hmarks : ∀ (n : Meter) (arrivals : List (ℕ × ℕ)), n.configured = false →
      n.marks arrivals = some (List.replicate arrivals.length 0, n) := by
    intro n arrivals hn
    induction arrivals with
    | nil => rfl
    | cons p arrivals ih =>
      rw [marks_cons, Meter.execute, if_neg (by simp [hn]), Option.bind_some, ih]
      rfl
  rw [restores_iff_marks]
  intro arrivals
  rw [hmarks m.full arrivals hconfigured, hmarks m.restored arrivals hconfigured]
  rfl

/-- Exactly the rates that the meter can run short of must have their place as colour. -/
theorem restores_iff (m : Meter) : m.Restores ↔ m.configured = false ∨
    ∀ i rate, m.rates[i]? = some rate → m.RunsShort i → rate.color = i + 1 := by
  cases hconfigured : m.configured with
  | false => exact iff_of_true (restores_of_not_configured hconfigured) (.inl rfl)
  | true =>
    have halike := alike_full_restored hconfigured
    rw [restores_iff_marks]
    simp only [Bool.true_eq_false, false_or]
    constructor
    · intro h i rate hrate hshort
      obtain ⟨arrivals, colors, after, micros, ingressLength, hruns, hstop⟩ := hshort
      rcases halike.marks arrivals with ⟨hnone, -⟩ |
        ⟨colors₁, colors', after₁, after', hruns₁, hruns', hlength, halike', hkeeps, hkeeps'⟩
      · rw [hruns] at hnone
        cases hnone
      · obtain ⟨rfl, rfl⟩ := Prod.mk.inj (Option.some.inj (hruns.symm.trans hruns₁))
        -- the next packet tells the colours apart
        have hinput : after.input ingressLength = m.input ingressLength := by
          rw [input, hkeeps.packets]
          rfl
        have hinput' : after'.input ingressLength = m.input ingressLength := by
          rw [input, hkeeps'.packets]
          rfl
        obtain ⟨last, -, hlast, -⟩ := hstop.1
        obtain ⟨last', -, hlast', -⟩ := (hstop.sameBucket halike'.rates).1
        have hstop' := hstop.sameBucket halike'.rates
        rw [← hinput] at hstop
        rw [← hinput'] at hstop'
        obtain ⟨next, hrun⟩ := execute_of_stopsAt halike'.configured hstop hlast
        obtain ⟨next', hrun'⟩ := execute_of_stopsAt halike'.configured' hstop' hlast'
        have hall := h (arrivals ++ [(micros, ingressLength)])
        rw [marks_append, marks_append, hruns, hruns', Option.bind_some, Option.bind_some, marks_cons,
          marks_cons, hrun, hrun'] at hall
        have hcolors : colors ++ [last.color] = colors' ++ [last'.color] := Option.some.inj hall
        have hcolor : last.color = last'.color := by
          have hlists := (List.append_inj hcolors hlength).2
          exact (List.cons.inj hlists).1
        obtain ⟨full, hfull, hfullColor⟩ := hkeeps.color hlast
        obtain ⟨before, hbefore, hbeforeColor⟩ := full_color hfull
        obtain ⟨placed, hplaced, hplacedColor⟩ := hkeeps'.color hlast'
        obtain rfl : before = rate := Option.some.inj (hbefore.symm.trans hrate)
        rw [hbeforeColor, hfullColor, hcolor, ← hplacedColor, restored_color hconfigured hplaced]
    · intro h arrivals
      refine halike.colors_eq (fun arrivals colors after micros ingressLength i rate rate' hruns hstop
        hrate hrate' => ?_) arrivals
      obtain ⟨before, hbefore, hcolor⟩ := full_color hrate
      rw [restored_color hconfigured hrate', ← hcolor]
      exact h i before hbefore ⟨arrivals, colors, after, micros, ingressLength, hruns, hstop⟩

/-! ## Configured meters -/

theorem tokensSinceInit_start (infoRate : ℚ) :
    (((0 : ℕ) : ℚ) * infoRate).floor.toNat % 2 ^ 64 = 0 := by
  have hzero : ((0 : ℕ) : ℚ) * infoRate = 0 := by rw [Nat.cast_zero, zero_mul]
  rw [hzero]
  rfl

theorem available_start {rate : MeterRate} (hlast : rate.tokensLast = 0) :
    ∃ tokens ≤ rate.tokens, available 0 rate = some tokens := by
  refine ⟨min (rate.tokens % 2 ^ 64) rate.burstSize, ?_, ?_⟩
  · exact (min_le_left _ _).trans (Nat.mod_le _ _)
  · rw [available, tokensSinceInit_start, hlast]
    rfl

theorem refilled_start (rate : MeterRate) (tokens : ℕ) : (refilled 0 rate tokens).tokensLast = 0 :=
  tokensSinceInit_start rate.infoRate

/-- At the start of the clock the loop does not abort. -/
theorem executeFrom_start (input : ℕ) {rates : List MeterRate}
    (hlast : ∀ rate ∈ rates, rate.tokensLast = 0) :
    ∃ color after, executeFrom 0 input rates = some (color, after) ∧
      ∀ rate ∈ after, rate.tokensLast = 0 := by
  induction rates with
  | nil => exact ⟨0, [], rfl, by simp⟩
  | cons rate rates ih =>
    obtain ⟨hrate, hrates⟩ := List.forall_mem_cons.mp hlast
    obtain ⟨tokens, -, htokens⟩ := available_start hrate
    obtain ⟨color, after, hrun, hafter⟩ := ih hrates
    rw [executeFrom_eq_available, htokens, Option.bind_some]
    split
    · exact ⟨_, _, rfl, List.forall_mem_cons.mpr ⟨refilled_start rate _, hrates⟩⟩
    · rw [hrun]
      exact ⟨_, _, rfl, List.forall_mem_cons.mpr ⟨refilled_start rate _, hafter⟩⟩

/-- Packets of one byte at one moment empty the first bucket. -/
theorem exists_stopsAt_zero {rate : MeterRate} {rates : List MeterRate} {n : ℕ}
    (hconfigured : m.configured = true) (hrates : m.rates = rate :: rates) (hn : rate.tokens ≤ n)
    (hlast : ∀ r ∈ m.rates, r.tokensLast = 0) :
    ∃ arrivals colors after, m.marks arrivals = some (colors, after) ∧
      StopsAt 0 (m.input 1) after.rates 0 := by
  have hinput : m.input 1 = 1 := by rw [input, ite_self]
  rw [hrates] at hlast
  obtain ⟨hrate, hrest⟩ := List.forall_mem_cons.mp hlast
  obtain ⟨tokens, hle, htokens⟩ := available_start hrate
  induction n generalizing m rate rates tokens with
  | zero =>
    refine ⟨[], [], m, rfl, ?_⟩
    rw [hrates]
    exact stopsAt_zero rates htokens (by omega)
  | succ n ih =>
    by_cases hshort : tokens < 1
    · refine ⟨[], [], m, rfl, ?_⟩
      rw [hrates]
      exact stopsAt_zero rates htokens (by omega)
    · obtain ⟨color, after, hrun, hafter⟩ := executeFrom_start 1 hrest
      have hexecute : m.execute 0 1 =
          some (color, { m with rates := refilled 0 rate (tokens - 1) :: after }) := by
        rw [Meter.execute, if_pos hconfigured, ← input, hinput, hrates, executeFrom_eq_available, htokens,
          Option.bind_some, if_neg hshort, hrun]
        rfl
      obtain ⟨tokens', hle', htokens'⟩ := available_start (refilled_start rate (tokens - 1))
      have hfewer : (refilled 0 rate (tokens - 1)).tokens ≤ n := by
        show tokens - 1 ≤ n
        omega
      obtain ⟨arrivals, colors, last, hruns, hstop⟩ :=
        ih (m := { m with rates := refilled 0 rate (tokens - 1) :: after }) hconfigured rfl hfewer
          (List.forall_mem_cons.mpr ⟨refilled_start rate _, hafter⟩) hinput (refilled_start rate _)
          hafter tokens' hle' htokens'
      refine ⟨(0, 1) :: arrivals, color :: colors, last, ?_, hstop⟩
      rw [marks_cons, hexecute, Option.bind_some, hruns]
      rfl

/-- Any meter can run short of the tokens of its first rate. -/
theorem runsShort_zero (hconfigured : m.configured = true) (hpos : 0 < m.rates.length) :
    m.RunsShort 0 := by
  obtain ⟨rate, rates, hrates⟩ := List.exists_cons_of_length_pos (l := m.full.rates)
    (by rw [full, List.length_map]; exact hpos)
  obtain ⟨arrivals, colors, after, hruns, hstop⟩ := exists_stopsAt_zero (m := m.full) hconfigured hrates
    le_rfl (fun r hr => by
      obtain ⟨before, -, rfl⟩ := List.mem_map.mp hr
      rfl)
  exact ⟨arrivals, colors, after, 0, 1, hruns, hstop⟩

/-- The meter after packets that came after a call of `set_rates` that succeeded. -/
def SetByRates (m : Meter) : Prop :=
  ∃ (m₀ : Meter) (configs : List RateConfig) (m₁ : Meter) (arrivals : List (ℕ × ℕ))
    (colors : List ℕ), m₀.setRates configs = (.success, m₁) ∧ m₁.marks arrivals = some (colors, m)

theorem sameBucket_refl (rate : MeterRate) : SameBucket rate rate := ⟨rfl, rfl, rfl, rfl⟩

/-- `set_rates` gives the highest colour to the first rate, and packets do not change that. -/
theorem SetByRates.color (h : m.SetByRates) : m.configured = true ∧
    ∀ i rate, m.rates[i]? = some rate → rate.color = m.rates.length - i := by
  obtain ⟨m₀, configs, m₁, arrivals, colors, hset, hruns⟩ := h
  have hm₁ := setRates_success hset
  have halike : Alike m₁ m₁ := by
    rw [hm₁]
    exact ⟨rfl, rfl, rfl, List.forall₂_same.mpr fun rate _ => sameBucket_refl rate⟩
  rcases halike.marks arrivals with ⟨hnone, -⟩ |
    ⟨colors₁, colors', after, after', hruns₁, -, -, halike', hkeeps, -⟩
  · rw [hruns] at hnone
    cases hnone
  · obtain ⟨rfl, rfl⟩ := Prod.mk.inj (Option.some.inj (hruns.symm.trans hruns₁))
    refine ⟨halike'.configured, fun i rate hrate => ?_⟩
    have hlength : m.rates.length = configs.length := by
      have hmap := congrArg List.length hkeeps.colors
      rw [List.length_map, List.length_map, hm₁] at hmap
      simpa using hmap
    obtain ⟨before, hbefore, hcolor⟩ := hkeeps.color hrate
    have hi := (List.getElem?_eq_some_iff.mp hrate).1
    rw [hm₁, List.getElem?_reverse (by simpa [hlength] using hi), List.length_mapIdx,
      List.getElem?_mapIdx, Option.map_eq_some_iff] at hbefore
    obtain ⟨config, -, rfl⟩ := hbefore
    rw [← hcolor]
    show configs.length - 1 - i + 1 = m.rates.length - i
    omega

/-- **A dump restores a meter** exactly when the place of every rate that the meter can run short of
is its colour; after `set_rates` it is so with one rate at most. -/
theorem dump_restores_iff (m : Meter) :
    (m.Restores ↔ m.configured = false ∨
      ∀ i rate, m.rates[i]? = some rate → m.RunsShort i → rate.color = i + 1) ∧
    (m.SetByRates → (m.Restores ↔ m.rates.length ≤ 1)) := by
  refine ⟨restores_iff m, fun hset => ?_⟩
  obtain ⟨hconfigured, hcolor⟩ := hset.color
  rw [restores_iff, hconfigured]
  simp only [Bool.true_eq_false, false_or]
  constructor
  · intro h
    by_contra hmany
    have hpos : 0 < m.rates.length := by omega
    have hfirst := List.getElem?_eq_getElem hpos
    have hplace := h 0 _ hfirst (runsShort_zero hconfigured hpos)
    rw [hcolor 0 _ hfirst] at hplace
    omega
  · intro hle i rate hrate _
    have hi := (List.getElem?_eq_some_iff.mp hrate).1
    rw [hcolor i rate hrate]
    omega

/-- A meter with one rate. -/
theorem dump_restores_iff_one : ∃ m : Meter, m.SetByRates ∧ m.Restores := by
  have hset : SetByRates ⟨true, [⟨true, 1, 5, 5, 0, 1⟩], true⟩ :=
    ⟨create true 1, [⟨1, 5⟩], _, [], [], rfl, rfl⟩
  exact ⟨_, hset, ((dump_restores_iff _).2 hset).mpr le_rfl⟩

/-- With two rates the colours are swapped: a packet that is beyond the higher rate is red for the
meter, and yellow for the restored one. -/
theorem restored_colors_swapped : ∃ m₀ m : Meter, m₀ = create false 2 ∧
    m₀.setRates [⟨1, 5⟩, ⟨2, 10⟩] = (.success, m) ∧
    (m.full.marks [(0, 11)]).map Prod.fst = some [2] ∧
    ∃ m', (create false 2).deserialize m.serialize = some (m', []) ∧
      (m'.marks [(0, 11)]).map Prod.fst = some [1] ∧ ¬ m.Restores := by
  have hcolor : (Meter.marks ⟨false, [⟨true, 2, 10, 10, 0, 2⟩, ⟨true, 1, 5, 5, 0, 1⟩], true⟩
      [(0, 11)]).map Prod.fst = some [2] := by decide +kernel
  have hcolor' : (Meter.marks ⟨false, [⟨true, 2, 10, 10, 0, 1⟩, ⟨true, 1, 5, 5, 0, 2⟩], true⟩
      [(0, 11)]).map Prod.fst = some [1] := by decide +kernel
  refine ⟨create false 2, ⟨false, [⟨true, 2, 10, 10, 0, 2⟩, ⟨true, 1, 5, 5, 0, 1⟩], true⟩, rfl,
    by decide +kernel, hcolor, ⟨false, [⟨true, 2, 10, 10, 0, 1⟩, ⟨true, 1, 5, 5, 0, 2⟩], true⟩,
    by decide +kernel, hcolor', fun h => ?_⟩
  have hmarks := (restores_iff_marks _).mp h [(0, 11)]
  exact absurd (hcolor.symm.trans (hmarks.trans hcolor')) (by decide)

end Meter

end Bm
