/-
# Reconfiguration of meters

`Meter::set_rates` writes every rate before it compares it with the one before, and
`MeterArray::set_rates` goes through the meters of the array until one refuses.

* `setRatesFrom_written`, `setRatesFrom_untouched`: what the loop leaves at each place;
* `setRates_atomic_iff`: when a call that fails leaves a meter, or an array, as it was.
-/
import Bmv2.MeterSpec

namespace Bm

namespace Meter

/-- The rates are listed from the smallest, as `set_rates` checks. -/
def Ascending (configs : List RateConfig) : Prop :=
  configs.IsChain fun config config' => config.infoRate ≤ config'.infoRate

instance (configs : List RateConfig) : Decidable (Ascending configs) :=
  inferInstanceAs (Decidable (configs.IsChain _))

/-! ## The loop -/

variable {rates : List MeterRate} {before after configs : List RateConfig}

theorem setRate_rates (rates : List MeterRate) (idx : ℕ) (config : RateConfig) :
    (setRate rates idx config).2 = rates.set idx (config.configured idx) := by
  unfold setRate
  dsimp only
  split <;> rfl

/-- A rate that has been accepted. -/
theorem getElem?_of_written
    (hwritten : rates.take before.length = before.mapIdx RateConfig.configured) {i : ℕ}
    {config : RateConfig} (hconfig : before[i]? = some config) :
    rates[i]? = some (config.configured i) := by
  have hi := (List.getElem?_eq_some_iff.mp hconfig).1
  rw [← List.getElem?_take_of_lt hi, hwritten, List.getElem?_mapIdx, hconfig]
  rfl

/-- A rate is refused when the one that was written before it is higher. -/
theorem setRate_code (hwritten : rates.take before.length = before.mapIdx RateConfig.configured)
    (hasc : Ascending before) (config : RateConfig) :
    (setRate rates before.length config).1 =
      if Ascending (before ++ [config]) then .success else .invalidInfoRateValue := by
  rcases List.eq_nil_or_concat before with rfl | ⟨before, prev, rfl⟩
  · exact (if_pos (List.isChain_singleton config)).symm
  · rw [List.concat_eq_append] at hwritten hasc ⊢
    have hprev : rates[before.length]? = some (prev.configured before.length) :=
      getElem?_of_written hwritten (by simp)
    have hiff : Ascending (before ++ [prev] ++ [config]) ↔ prev.infoRate ≤ config.infoRate := by
      rw [Ascending, List.append_assoc, List.singleton_append, List.isChain_split,
        List.isChain_pair]
      exact and_iff_right hasc
    unfold setRate
    simp only [List.length_append, List.length_singleton, Nat.zero_lt_succ, true_and,
      Nat.add_sub_cancel]
    rw [List.getElem?_set_ne (by omega), hprev, if_congr hiff rfl rfl]
    show (if config.infoRate < prev.infoRate then _ else _ : MeterErrorCode × _).1 = _
    by_cases hle : prev.infoRate ≤ config.infoRate
    · rw [if_pos hle, if_neg (not_lt.mpr hle)]
    · rw [if_neg hle, if_pos (not_le.mp hle)]

theorem setRatesFrom_cons (rates : List MeterRate) (idx : ℕ) (config : RateConfig)
    (configs : List RateConfig) :
    setRatesFrom rates idx (config :: configs) =
      if (setRate rates idx config).1 = .success then
        setRatesFrom (rates.set idx (config.configured idx)) (idx + 1) configs
      else ((setRate rates idx config).1, rates.set idx (config.configured idx)) := by
  rw [← setRate_rates, setRatesFrom]
  split
  next heq => rw [heq, if_pos rfl]
  next hne heq => rw [heq, if_neg hne]

theorem length_setRatesFrom (rates : List MeterRate) (idx : ℕ) (configs : List RateConfig) :
    (setRatesFrom rates idx configs).2.length = rates.length := by
  induction configs generalizing rates idx with
  | nil => rfl
  | cons config configs ih =>
    rw [setRatesFrom_cons]
    split
    · rw [ih, List.length_set]
    · exact List.length_set

/-- Earlier places are not written again. -/
theorem setRatesFrom_before {i idx : ℕ} (hi : i < idx) :
    (setRatesFrom rates idx configs).2[i]? = rates[i]? := by
  induction configs generalizing rates idx with
  | nil => rfl
  | cons config configs ih =>
    rw [setRatesFrom_cons]
    split
    · rw [ih (by omega), List.getElem?_set_ne (by omega)]
    · exact List.getElem?_set_ne (by omega)

/-- The rates that have been accepted, and one more. -/
theorem take_set_succ (hwritten : rates.take before.length = before.mapIdx RateConfig.configured)
    (hlt : before.length < rates.length) (config : RateConfig) :
    (rates.set before.length (config.configured before.length)).take (before ++ [config]).length =
      (before ++ [config]).mapIdx RateConfig.configured := by
  rw [List.length_append, List.length_singleton, List.take_add_one, List.take_set_of_le le_rfl,
    hwritten, List.getElem?_set_self hlt]
  simp

/-- `set_rates` succeeds on rates that are listed from the smallest. -/
theorem setRatesFrom_code (before : List RateConfig)
    (hwritten : rates.take before.length = before.mapIdx RateConfig.configured) (hasc : Ascending before) (hlen : rates.length = before.length + after.length) :
    (setRatesFrom rates before.length after).1 =
      if Ascending (before ++ after) then .success else .invalidInfoRateValue := by
  induction after generalizing rates before with
  | nil =>
    rw [List.append_nil, if_pos hasc]
    rfl
  | cons config after ih =>
    rw [List.length_cons] at hlen
    have happend : before ++ config :: after = before ++ [config] ++ after := by simp
    rw [setRatesFrom_cons, setRate_code hwritten hasc, happend]
    by_cases hnext : Ascending (before ++ [config])
    · rw [if_pos hnext, if_pos rfl]
      have hstep := ih _ (take_set_succ hwritten (by omega) config) hnext (by simp; omega)
      rwa [List.length_append, List.length_singleton] at hstep
    · rw [if_neg hnext, if_neg (by decide), if_neg]
      intro hall
      exact hnext hall.left_of_append

/-- A place is written when the rates before it have been accepted. -/
theorem setRatesFrom_written (before : List RateConfig)
    (hwritten : rates.take before.length = before.mapIdx RateConfig.configured)
    (hasc : Ascending before) (hlen : rates.length = before.length + after.length) {i : ℕ}
    {config : RateConfig} (hconfig : (before ++ after)[i]? = some config)
    (haccepted : Ascending ((before ++ after).take i)) :
    (setRatesFrom rates before.length after).2[i]? = some (config.configured i) := by
  induction after generalizing rates before with
  | nil =>
    rw [List.append_nil] at hconfig
    exact getElem?_of_written hwritten hconfig
  | cons next after ih =>
    rw [List.length_cons] at hlen
    have happend : before ++ next :: after = before ++ [next] ++ after := by simp
    have htake := take_set_succ hwritten (by omega) next
    rw [happend] at hconfig haccepted
    rw [setRatesFrom_cons, setRate_code hwritten hasc]
    by_cases hnext : Ascending (before ++ [next])
    · rw [if_pos hnext, if_pos rfl]
      have hstep := ih _ htake hnext (by simp; omega) hconfig haccepted
      rwa [List.length_append, List.length_singleton] at hstep
    · -- the refused rate is the last one that is written
      rw [if_neg hnext, if_neg (by decide)]
      have hle : i ≤ before.length := by
        by_contra hlt
        have hall := haccepted.take (before ++ [next]).length
        rw [List.take_take, min_eq_left (by simp; omega), List.take_left] at hall
        exact hnext hall
      rw [List.getElem?_append_left (by simp; omega)] at hconfig
      exact getElem?_of_written htake hconfig

/-- A place behind a rate that has been refused stays as it was. -/
theorem setRatesFrom_untouched (before : List RateConfig)
    (hwritten : rates.take before.length = before.mapIdx RateConfig.configured)
    (hasc : Ascending before) (hlen : rates.length = before.length + after.length) {i : ℕ}
    (hrefused : ¬ Ascending ((before ++ after).take i)) :
    (setRatesFrom rates before.length after).2[i]? = rates[i]? := by
  induction after generalizing rates before with
  | nil => rfl
  | cons next after ih =>
    rw [List.length_cons] at hlen
    have happend : before ++ next :: after = before ++ [next] ++ after := by simp
    rw [happend] at hrefused
    have hlt : before.length < i := by
      by_contra hle
      rw [List.append_assoc, List.take_append_of_le_length (not_lt.mp hle)] at hrefused
      exact hrefused (hasc.take i)
    have hset : (rates.set before.length (next.configured before.length))[i]? = rates[i]? :=
      List.getElem?_set_ne (by omega)
    rw [setRatesFrom_cons, setRate_code hwritten hasc]
    by_cases hnext : Ascending (before ++ [next])
    · rw [if_pos hnext, if_pos rfl, ← hset]
      have hstep := ih _ (take_set_succ hwritten (by omega) next) hnext (by simp; omega) hrefused
      rwa [List.length_append, List.length_singleton] at hstep
    · rw [if_neg hnext, if_neg (by decide)]
      exact hset

/-! ## One meter -/

/-- The meter has just got the rates: full buckets, with the highest rate and the highest colour
in front. -/
structure SetTo (m : Meter) (configs : List RateConfig) : Prop where
  configured : m.configured = true
  getRates : m.getRates = configs
  full : ∀ rate ∈ m.rates, rate.valid = true ∧ rate.tokens = rate.burstSize ∧ rate.tokensLast = 0
  highestFirst : m.rates.Pairwise fun rate rate' => rate'.infoRate ≤ rate.infoRate
  colors : m.rates.map MeterRate.color = (List.range' 1 configs.length).reverse

/-- A call of `set_rates` sets the rates, or fails and changes nothing. -/
def SetsAtomically (m : Meter) (configs : List RateConfig) : Prop :=
  (m.setRates configs).1 = .success ∧ (m.setRates configs).2.packets = m.packets ∧
      (m.setRates configs).2.SetTo configs ∨
    (m.setRates configs).1 ≠ .success ∧ (m.setRates configs).2 = m

/-- The meter holds already what a call writes before it fails. -/
def Holds (m : Meter) (configs : List RateConfig) : Prop :=
  ∀ i config, configs[i]? = some config → Ascending (configs.take i) →
    m.rates[i]? = some (config.configured i)

variable {m : Meter}

theorem setRates_badRatesList (hlen : configs.length ≠ m.rates.length) :
    m.setRates configs = (.badRatesList, m) := by
  rw [setRates, if_pos hlen]

/-- The loop from the first rate on. -/
theorem setRatesFrom_zero (hlen : configs.length = m.rates.length) :
    (setRatesFrom m.rates 0 configs).1 =
      if Ascending configs then .success else .invalidInfoRateValue :=
  setRatesFrom_code [] rfl List.isChain_nil (by simp [hlen])

theorem setRates_ascending (hlen : configs.length = m.rates.length) (hasc : Ascending configs) :
    m.setRates configs = (.success,
      { m with rates := (configs.mapIdx RateConfig.configured).reverse, configured := true }) := by
  have hcode := setRatesFrom_zero hlen
  rw [if_pos hasc] at hcode
  have hsuccess : (m.setRates configs).1 = .success := by
    rw [setRates, if_neg (not_not.mpr hlen)]
    split
    next => rfl
    next hne heq => exact absurd (by rw [heq] at hcode; exact hcode) hne
  exact Prod.ext hsuccess (setRates_success (Prod.ext hsuccess rfl))

theorem setRates_refused (hlen : configs.length = m.rates.length) (hasc : ¬ Ascending configs) :
    m.setRates configs =
      (.invalidInfoRateValue, { m with rates := (setRatesFrom m.rates 0 configs).2 }) := by
  have hcode := setRatesFrom_zero hlen
  rw [if_neg hasc] at hcode
  rw [setRates, if_neg (not_not.mpr hlen)]
  split
  next heq =>
    rw [heq] at hcode
    cases hcode
  next code rates hne heq =>
    rw [heq] at hcode ⊢
    rw [show code = .invalidInfoRateValue from hcode]

/-- What a call that is refused leaves: the rates are as before when they held the new ones. -/
theorem setRates_refused_eq_iff (hlen : configs.length = m.rates.length) :
    (setRatesFrom m.rates 0 configs).2 = m.rates ↔ m.Holds configs := by
  constructor
  · intro heq i config hconfig haccepted
    rw [← heq]
    exact setRatesFrom_written [] rfl List.isChain_nil (by simp [hlen]) hconfig haccepted
  · intro hholds
    apply List.ext_getElem?
    intro i
    by_cases haccepted : Ascending (configs.take i)
    · cases hconfig : configs[i]? with
      | none =>
        have hle : m.rates.length ≤ i := hlen ▸ List.getElem?_eq_none_iff.mp hconfig
        rw [List.getElem?_eq_none hle, List.getElem?_eq_none (by rwa [length_setRatesFrom])]
      | some config =>
        rw [hholds i config hconfig haccepted]
        exact setRatesFrom_written [] rfl List.isChain_nil (by simp [hlen]) hconfig
          haccepted
    · exact setRatesFrom_untouched [] rfl List.isChain_nil (by simp [hlen]) haccepted

theorem setTo_ascending (m : Meter) (hasc : Ascending configs) :
    SetTo { m with rates := (configs.mapIdx RateConfig.configured).reverse, configured := true }
      configs where
  configured := rfl
  getRates := by
    rw [Meter.getRates, if_pos rfl, List.map_reverse, List.reverse_reverse]
    apply List.ext_getElem?
    intro i
    rw [List.getElem?_map, List.getElem?_mapIdx]
    cases configs[i]? <;> rfl
  full rate hrate := by
    obtain ⟨i, hi, rfl⟩ := List.mem_mapIdx.mp (List.mem_reverse.mp hrate)
    exact ⟨rfl, rfl, rfl⟩
  highestFirst := by
    have htrans : IsTrans RateConfig fun config config' => config.infoRate ≤ config'.infoRate :=
      ⟨fun _ _ _ => le_trans⟩
    have hpairwise := List.isChain_iff_pairwise.mp hasc
    rw [List.pairwise_reverse, List.pairwise_iff_getElem]
    intro i j hi hj hij
    simp only [List.getElem_mapIdx, RateConfig.configured]
    exact List.pairwise_iff_getElem.mp hpairwise i j _ _ hij
  colors := by
    rw [List.map_reverse]
    congr 1
    apply List.ext_getElem (by simp)
    intro i hi hi'
    simp [RateConfig.configured, Nat.add_comm]

theorem setRates_success_iff : (m.setRates configs).1 = .success ↔
    configs.length = m.rates.length ∧ Ascending configs := by
  by_cases hlen : configs.length = m.rates.length
  · by_cases hasc : Ascending configs
    · rw [setRates_ascending hlen hasc]
      exact iff_of_true rfl ⟨hlen, hasc⟩
    · rw [setRates_refused hlen hasc]
      exact iff_of_false MeterErrorCode.noConfusion fun h => hasc h.2
  · rw [setRates_badRatesList hlen]
    exact iff_of_false MeterErrorCode.noConfusion fun h => hlen h.1

theorem setRates_keeps (m : Meter) (configs : List RateConfig) :
    (m.setRates configs).2.packets = m.packets ∧
      (m.setRates configs).2.rates.length = m.rates.length := by
  by_cases hlen : configs.length = m.rates.length
  · by_cases hasc : Ascending configs
    · rw [setRates_ascending hlen hasc]
      exact ⟨rfl, by simp [hlen]⟩
    · rw [setRates_refused hlen hasc]
      exact ⟨rfl, length_setRatesFrom _ _ _⟩
  · rw [setRates_badRatesList hlen]
    exact ⟨rfl, rfl⟩

/-- **One meter.** -/
theorem setsAtomically_iff (m : Meter) (configs : List RateConfig) :
    m.SetsAtomically configs ↔
      configs.length ≠ m.rates.length ∨ Ascending configs ∨ m.Holds configs := by
  by_cases hlen : configs.length = m.rates.length
  · by_cases hasc : Ascending configs
    · rw [SetsAtomically, setRates_ascending hlen hasc]
      exact iff_of_true (.inl ⟨rfl, rfl, setTo_ascending m hasc⟩) (.inr (.inl hasc))
    · rw [SetsAtomically, setRates_refused hlen hasc, ← setRates_refused_eq_iff hlen]
      constructor
      · rintro (⟨hcode, -⟩ | ⟨-, heq⟩)
        · cases hcode
        · exact .inr (.inr (congrArg Meter.rates heq))
      · rintro (hbad | hbad | heq)
        · exact absurd hlen hbad
        · exact absurd hbad hasc
        · refine .inr ⟨MeterErrorCode.noConfusion, ?_⟩
          rw [heq]
  · rw [SetsAtomically, setRates_badRatesList hlen]
    exact iff_of_true (.inr ⟨MeterErrorCode.noConfusion, rfl⟩) (.inl hlen)

end Meter

/-! ## Arrays of meters -/

/-- `MeterArray`: meters with the same number of rates. -/
@[ext] structure MeterArray where
  packets : Bool
  rateCount : ℕ
  meters : List Meter
  sized : ∀ m ∈ meters, m.packets = packets ∧ m.rates.length = rateCount

namespace MeterArray

/-- The constructor. -/
def create (packets : Bool) (rateCount size : ℕ) : MeterArray where
  packets := packets
  rateCount := rateCount
  meters := List.replicate size { packets, rates := List.replicate rateCount {} }
  sized m hm := by
    rw [List.eq_of_mem_replicate hm]
    exact ⟨rfl, List.length_replicate⟩

/-- The loop of `MeterArray::set_rates`. -/
def setRatesFrom (configs : List RateConfig) : List Meter → MeterErrorCode × List Meter
  | [] => (.success, [])
  | m :: meters =>
      match m.setRates configs with
      | (.success, m) =>
          let (code, meters) := setRatesFrom configs meters
          (code, m :: meters)
      | (code, m) => (code, m :: meters)

theorem setRatesFrom_cons (configs : List RateConfig) (m : Meter) (meters : List Meter) :
    setRatesFrom configs (m :: meters) =
      if (m.setRates configs).1 = .success then
        ((setRatesFrom configs meters).1, (m.setRates configs).2 :: (setRatesFrom configs meters).2)
      else ((m.setRates configs).1, (m.setRates configs).2 :: meters) := by
  rw [setRatesFrom]
  split
  next heq => rw [heq, if_pos rfl]
  next hne heq => rw [heq, if_neg hne]

theorem sized_setRatesFrom {configs : List RateConfig} {packets : Bool} {rateCount : ℕ}
    {meters : List Meter}
    (hsized : ∀ m ∈ meters, m.packets = packets ∧ m.rates.length = rateCount) :
    ∀ m ∈ (setRatesFrom configs meters).2, m.packets = packets ∧ m.rates.length = rateCount := by
  induction meters with
  | nil => exact hsized
  | cons m meters ih =>
    obtain ⟨hm, hmeters⟩ := List.forall_mem_cons.mp hsized
    obtain ⟨hpackets, hrates⟩ := m.setRates_keeps configs
    rw [setRatesFrom_cons]
    split
    · exact List.forall_mem_cons.mpr ⟨⟨hpackets.trans hm.1, hrates.trans hm.2⟩, ih hmeters⟩
    · exact List.forall_mem_cons.mpr ⟨⟨hpackets.trans hm.1, hrates.trans hm.2⟩, hmeters⟩

/-- `MeterArray::set_rates`. -/
def setRates (a : MeterArray) (configs : List RateConfig) : MeterErrorCode × MeterArray :=
  ((setRatesFrom configs a.meters).1,
    { a with
      meters := (setRatesFrom configs a.meters).2
      sized := sized_setRatesFrom a.sized })

/-- A call of `set_rates` sets the rates of every meter, or fails and changes nothing. -/
def SetsAtomically (a : MeterArray) (configs : List RateConfig) : Prop :=
  (a.setRates configs).1 = .success ∧
      (a.setRates configs).2.meters.length = a.meters.length ∧
      (∀ m ∈ (a.setRates configs).2.meters, m.SetTo configs) ∨
    (a.setRates configs).1 ≠ .success ∧ (a.setRates configs).2 = a

variable {configs : List RateConfig} {meters : List Meter} {rateCount : ℕ}

/-- The rates are accepted by every meter. -/
theorem setRatesFrom_ascending (hsized : ∀ m ∈ meters, m.rates.length = configs.length)
    (hasc : Meter.Ascending configs) :
    (setRatesFrom configs meters).1 = .success ∧
      (setRatesFrom configs meters).2.length = meters.length ∧
      ∀ m ∈ (setRatesFrom configs meters).2, m.SetTo configs := by
  induction meters with
  | nil => exact ⟨rfl, rfl, fun m hm => absurd hm List.not_mem_nil⟩
  | cons m meters ih =>
    obtain ⟨hm, hmeters⟩ := List.forall_mem_cons.mp hsized
    obtain ⟨hcode, hlength, hset⟩ := ih hmeters
    rw [setRatesFrom_cons, Meter.setRates_ascending hm.symm hasc, if_pos rfl]
    exact ⟨hcode, congrArg Nat.succ hlength,
      List.forall_mem_cons.mpr ⟨m.setTo_ascending hasc, hset⟩⟩

/-- The first meter that fails stops the loop. -/
theorem setRatesFrom_fails (meters : List Meter) {m : Meter}
    (hcode : (m.setRates configs).1 ≠ .success) :
    setRatesFrom configs (m :: meters) =
      ((m.setRates configs).1, (m.setRates configs).2 :: meters) := by
  rw [setRatesFrom_cons, if_neg hcode]

/-- **An array.** -/
theorem setsAtomically_iff (a : MeterArray) (configs : List RateConfig) :
    a.SetsAtomically configs ↔
      configs.length ≠ a.rateCount ∨ Meter.Ascending configs ∨
        ∀ m ∈ a.meters.head?, m.Holds configs := by
  obtain ⟨packets, rateCount, meters, sized⟩ := a
  cases meters with
  | nil =>
    exact iff_of_true (.inl ⟨rfl, rfl, fun m hm => absurd hm List.not_mem_nil⟩)
      (.inr (.inr fun m hm => absurd hm (by simp)))
  | cons m meters =>
    have hm : m.rates.length = rateCount := (sized m List.mem_cons_self).2
    have hhead : (∀ m' ∈ (m :: meters).head?, m'.Holds configs) ↔ m.Holds configs := by simp
    have hmeter := m.setsAtomically_iff configs
    rw [hm] at hmeter
    show _ ↔ configs.length ≠ rateCount ∨ _ ∨ ∀ m' ∈ (m :: meters).head?, m'.Holds configs
    rw [hhead, ← hmeter]
    by_cases hcode : (m.setRates configs).1 = .success
    · obtain ⟨hlen, hasc⟩ := Meter.setRates_success_iff.mp hcode
      have hall : ∀ m' ∈ m :: meters, m'.rates.length = configs.length := fun m' hm' =>
        (sized m' hm').2.trans (hm.symm.trans hlen.symm)
      refine iff_of_true (.inl (setRatesFrom_ascending hall hasc)) (.inl ⟨hcode, ?_⟩)
      rw [Meter.setRates_ascending hlen hasc]
      exact ⟨rfl, m.setTo_ascending hasc⟩
    · have harray := setRatesFrom_fails meters hcode
      have hfirst := congrArg Prod.fst harray
      have hsecond := congrArg Prod.snd harray
      constructor
      · rintro (⟨hsuccess, -⟩ | ⟨-, heq⟩)
        · exact absurd (hfirst.symm.trans hsuccess) hcode
        · have hmeters := hsecond.symm.trans (congrArg MeterArray.meters heq)
          exact .inr ⟨hcode, (List.cons.inj hmeters).1⟩
      · rintro (⟨hsuccess, -⟩ | ⟨-, heq⟩)
        · exact absurd hsuccess hcode
        · refine .inr ⟨fun h => hcode (hfirst.symm.trans h),
            MeterArray.ext rfl rfl (hsecond.trans ?_)⟩
          rw [heq]

/-- **Atomic reconfiguration.**  A call that fails leaves an array, or a meter, as it was when
and only when it is refused for the number of rates, or the first meter held already
what is written before the failure; a call with rates in order succeeds. -/
theorem setRates_atomic_iff (a : MeterArray) (configs : List RateConfig) :
    (a.SetsAtomically configs ↔
      configs.length ≠ a.rateCount ∨ Meter.Ascending configs ∨
        ∀ m ∈ a.meters.head?, m.Holds configs) ∧
    ∀ m : Meter, m.SetsAtomically configs ↔
      configs.length ≠ m.rates.length ∨ Meter.Ascending configs ∨ m.Holds configs :=
  ⟨a.setsAtomically_iff configs, fun m => m.setsAtomically_iff configs⟩

/-- One meter with the rates 1 and 2, after a packet. -/
def metered : MeterArray where
  packets := true
  rateCount := 2
  meters := [⟨true, [⟨true, 2, 5, 4, 20, 2⟩, ⟨true, 1, 3, 2, 10, 1⟩], true⟩]
  sized := by simp

example : ((create true 2 1).setRates [⟨1, 3⟩, ⟨2, 5⟩]).2.meters.map (·.execute 10 64) =
    metered.meters.map fun m => some (0, m) := by
  decide +kernel

/-- The rates 3 and 2 are refused, and the next packet is marked with their burst sizes. -/
theorem setRates_not_atomic :
    ¬ metered.SetsAtomically [⟨3, 0⟩, ⟨2, 0⟩] ∧
      metered.meters.map (fun m => (m.execute 20 64).map (·.1)) = [some 0] ∧
      (metered.setRates [⟨3, 0⟩, ⟨2, 0⟩]).2.meters.map (fun m => (m.execute 20 64).map (·.1)) =
        [some 1] := by
  refine ⟨?_, by decide +kernel, by decide +kernel⟩
  rintro (⟨hsuccess, -⟩ | ⟨-, heq⟩)
  · exact absurd hsuccess (by decide +kernel)
  · exact absurd (congrArg MeterArray.meters heq) (by decide +kernel)

end MeterArray

end Bm
