/-
# Token buckets and the N-rate marker

A bucket of a given rate and burst size earns `⌊rate * t⌋` tokens up to time
`t` and holds at most its burst size.  The marker refills all its buckets for
every packet and then charges them in order, up to the first one that has too
few tokens: the colour of that bucket is the colour of the packet.

* `refill_refill`: two refills in a row are one refill for the sum, so the cap
  that a skipped refill would have applied does not matter;
* `Marker.conforming_le`: over `(t₁, t₂]` the traffic that a bucket lets through
  is at most its burst size plus what it earns between `t₁` and `t₂`.
-/
import Mathlib

/-- Tokens earned up to time `t` at the given rate. -/
def earned (rate : ℚ) (t : ℕ) : ℕ := (t * rate).floor.toNat

/-- A bucket that holds at most `burst` tokens earns `n` more. -/
def refill (burst tokens n : ℕ) : ℕ := min (tokens + n) burst

theorem earned_mono {rate : ℚ} (hrate : 0 ≤ rate) {t t' : ℕ} (h : t ≤ t') :
    earned rate t ≤ earned rate t' := by
  have hle : (t : ℚ) * rate ≤ t' * rate := by gcongr
  exact Int.toNat_le_toNat (Int.floor_mono hle)

@[simp] theorem earned_zero (rate : ℚ) : earned rate 0 = 0 := by
  have hfloor : (0 : ℚ).floor = 0 := rfl
  simp [earned, hfloor]

theorem earned_cast {rate : ℚ} (hrate : 0 ≤ rate) (t : ℕ) :
    (earned rate t : ℚ) = (Int.floor ((t : ℚ) * rate) : ℚ) := by
  have hnonneg : 0 ≤ Int.floor ((t : ℚ) * rate) := Int.floor_nonneg.mpr (by positivity)
  have hint : ((earned rate t : ℕ) : ℤ) = Int.floor ((t : ℚ) * rate) := Int.toNat_of_nonneg hnonneg
  exact_mod_cast congrArg (Int.cast (R := ℚ)) hint

theorem earned_le {rate : ℚ} (hrate : 0 ≤ rate) (t : ℕ) : (earned rate t : ℚ) ≤ rate * t := by
  have hfloor : (Int.floor ((t : ℚ) * rate) : ℚ) ≤ t * rate := Int.floor_le _
  rw [earned_cast hrate]
  linarith

/-- What is earned between two times exceeds the exact product by less than one token. -/
theorem earned_sub_lt {rate : ℚ} (hrate : 0 ≤ rate) {t₁ t₂ : ℕ} (h : t₁ ≤ t₂) :
    ((earned rate t₂ - earned rate t₁ : ℕ) : ℚ) < rate * (t₂ - t₁) + 1 := by
  have hupper := earned_le hrate t₂
  have hlower : (t₁ : ℚ) * rate < Int.floor ((t₁ : ℚ) * rate) + 1 := Int.lt_floor_add_one _
  rw [← earned_cast hrate] at hlower
  rw [Nat.cast_sub (earned_mono hrate h)]
  linarith

theorem refill_le (burst tokens n : ℕ) : refill burst tokens n ≤ burst := min_le_right _ _

/-- The cap of the first of two refills does not matter. -/
theorem refill_refill (burst tokens n n' : ℕ) :
    refill burst (refill burst tokens n) n' = refill burst tokens (n + n') := by
  unfold refill
  omega

theorem refill_zero {burst tokens : ℕ} (h : tokens ≤ burst) : refill burst tokens 0 = tokens := by
  unfold refill
  omega

/-! ## The marker -/

/-- One rate of a marker: the colour tells which bucket refused a packet. -/
structure Bucket where
  rate : ℚ
  burst : ℕ
  color : ℕ
  tokens : ℕ
  deriving DecidableEq

/-- The buckets in the order in which they are charged, refilled up to `last`. -/
structure Marker where
  buckets : List Bucket
  last : ℕ
  deriving DecidableEq

/-- Refill a bucket for the time from `last` to `now`. -/
def Bucket.refillTo (last now : ℕ) (b : Bucket) : Bucket :=
  { b with tokens := refill b.burst b.tokens (earned b.rate now - earned b.rate last) }

/-- Charge the buckets up to the first that has too few tokens; colour 0 when all have enough. -/
def charge (input : ℕ) : List Bucket → ℕ × List Bucket
  | [] => (0, [])
  | b :: bs =>
      if b.tokens < input then (b.color, b :: bs)
      else ((charge input bs).1, { b with tokens := b.tokens - input } :: (charge input bs).2)

namespace Marker

/-- One packet of the given size at time `now`. -/
def mark (m : Marker) (now input : ℕ) : ℕ × Marker :=
  let charged := charge input (m.buckets.map (Bucket.refillTo m.last now))
  (charged.1, ⟨charged.2, now⟩)

/-- The colours of a sequence of packets, each a time and a size. -/
def colors : Marker → List (ℕ × ℕ) → List ℕ
  | _, [] => []
  | m, (now, input) :: arrivals =>
      (m.mark now input).1 :: (m.mark now input).2.colors arrivals

end Marker

/-- The traffic in `(t₁, t₂]` that conforms to the rate of colour `c`: a packet conforms
when the colour it was given is below `c`. -/
def conforming (c t₁ t₂ : ℕ) (arrivals : List (ℕ × ℕ)) (colors : List ℕ) : ℕ :=
  (((arrivals.zip colors).filter fun p => t₁ < p.1.1 ∧ p.1.1 ≤ t₂ ∧ p.2 < c).map fun p => p.1.2).sum

theorem conforming_cons (c t₁ t₂ now input color : ℕ) (arrivals : List (ℕ × ℕ))
    (colors : List ℕ) :
    conforming c t₁ t₂ ((now, input) :: arrivals) (color :: colors) =
      (if t₁ < now ∧ now ≤ t₂ ∧ color < c then input else 0) +
        conforming c t₁ t₂ arrivals colors := by
  unfold conforming
  rw [List.zip_cons_cons, List.filter_cons]
  by_cases h : t₁ < now ∧ now ≤ t₂ ∧ color < c
  · simp [h]
  · simp [h]

/-- Nothing conforms in an interval that is over. -/
theorem conforming_eq_zero {c t₁ t₂ : ℕ} {arrivals : List (ℕ × ℕ)} (colors : List ℕ)
    (h : ∀ p ∈ arrivals, t₂ < p.1) : conforming c t₁ t₂ arrivals colors = 0 := by
  unfold conforming
  rw [List.filter_eq_nil_iff.mpr]
  · rfl
  · intro p hp
    have hlt : t₂ < p.1.1 := h p.1 (List.of_mem_zip hp).1
    simp only [decide_eq_true_eq, not_and]
    omega

/-- The colours go down along the buckets: a packet passes a bucket exactly when the colour
it is given is below that bucket's. -/
def Descending (bs : List Bucket) : Prop := bs.Pairwise fun b b' => b'.color < b.color

theorem charge_color_lt {input bound : ℕ} {bs : List Bucket} (hbound : 0 < bound)
    (h : ∀ b ∈ bs, b.color < bound) : (charge input bs).1 < bound := by
  induction bs with
  | nil => exact hbound
  | cons b bs ih =>
    unfold charge
    split
    · exact h b (by simp)
    · exact ih fun b' hb' => h b' (by simp [hb'])

/-- What one packet does to the bucket at one place. -/
theorem charge_at {input i : ℕ} {bs : List Bucket} {b : Bucket} (hdesc : Descending bs)
    (hb : bs[i]? = some b) :
    ∃ tokens, (charge input bs).2[i]? = some { b with tokens } ∧
      tokens + (if (charge input bs).1 < b.color then input else 0) ≤ b.tokens := by
  induction bs generalizing i with
  | nil => simp at hb
  | cons b₀ bs ih =>
    obtain ⟨hhead, htail⟩ := List.pairwise_cons.mp hdesc
    unfold charge
    by_cases hshort : b₀.tokens < input
    · rw [if_pos hshort]
      refine ⟨b.tokens, hb, ?_⟩
      have hge : ¬ b₀.color < b.color := by
        cases i with
        | zero =>
          obtain rfl : b₀ = b := by simpa using hb
          exact lt_irrefl _
        | succ i =>
          have hlt : b.color < b₀.color := hhead b (List.mem_of_getElem? (by simpa using hb))
          omega
      simp [hge]
    · rw [if_neg hshort]
      cases i with
      | zero =>
        obtain rfl : b₀ = b := by simpa using hb
        refine ⟨b₀.tokens - input, by simp, ?_⟩
        show b₀.tokens - input + (if (charge input bs).1 < b₀.color then input else 0) ≤ b₀.tokens
        split
        · omega
        · omega
      | succ i => exact ih htail (by simpa using hb)

theorem descending_charge {input : ℕ} {bs : List Bucket} (h : Descending bs) :
    Descending (charge input bs).2 := by
  have hcolors : (charge input bs).2.map Bucket.color = bs.map Bucket.color := by
    clear h
    induction bs with
    | nil => rfl
    | cons b bs ih =>
      unfold charge
      split
      · rfl
      · simp [ih]
  unfold Descending at h ⊢
  rw [← List.pairwise_map (f := Bucket.color) (R := fun c c' => c' < c)] at h ⊢
  rwa [hcolors]

/-- Arrival times do not decrease. -/
def InOrder (arrivals : List (ℕ × ℕ)) : Prop := arrivals.Pairwise fun p q => p.1 ≤ q.1

instance (arrivals : List (ℕ × ℕ)) : Decidable (InOrder arrivals) :=
  inferInstanceAs (Decidable (arrivals.Pairwise _))

namespace Marker

@[simp] theorem colors_nil (m : Marker) : m.colors [] = [] := rfl

theorem colors_cons (m : Marker) (now input : ℕ) (arrivals : List (ℕ × ℕ)) :
    m.colors ((now, input) :: arrivals) =
      (m.mark now input).1 :: (m.mark now input).2.colors arrivals := rfl

@[simp] theorem mark_last (m : Marker) (now input : ℕ) : (m.mark now input).2.last = now := rfl

theorem descending_mark {m : Marker} {now input : ℕ} (h : Descending m.buckets) :
    Descending (m.mark now input).2.buckets := by
  refine descending_charge ?_
  unfold Descending at h ⊢
  rw [List.pairwise_map]
  exact h

/-- One packet: the bucket at place `i` is refilled, and pays for the packet when it conforms. -/
theorem mark_at {m : Marker} {now input i : ℕ} {b : Bucket} (hdesc : Descending m.buckets)
    (hb : m.buckets[i]? = some b) :
    ∃ tokens, (m.mark now input).2.buckets[i]? = some { b with tokens } ∧
      tokens + (if (m.mark now input).1 < b.color then input else 0) ≤
        refill b.burst b.tokens (earned b.rate now - earned b.rate m.last) := by
  have hdesc' : Descending (m.buckets.map (Bucket.refillTo m.last now)) := by
    unfold Descending at hdesc ⊢
    rw [List.pairwise_map]
    exact hdesc
  have hb' : (m.buckets.map (Bucket.refillTo m.last now))[i]? =
      some (b.refillTo m.last now) := by simp [hb]
  obtain ⟨tokens, hat, hle⟩ := charge_at hdesc' hb'
  exact ⟨tokens, hat, hle⟩

/-- What a bucket can still let through in `(t₁, t₂]`, seen from time `last`. -/
def allowance (t₁ t₂ last : ℕ) (b : Bucket) : ℕ :=
  if last ≤ t₁ then b.burst + (earned b.rate t₂ - earned b.rate t₁)
  else b.tokens + (earned b.rate t₂ - earned b.rate last)

/-- The traffic let through is within the allowance: before `t₁` the cap bounds what can have
been saved up, after it every token spent was in the bucket or has been earned since. -/
theorem conforming_le_allowance {m : Marker} {i t₁ t₂ : ℕ} {b : Bucket}
    {arrivals : List (ℕ × ℕ)} (hdesc : Descending m.buckets) (hb : m.buckets[i]? = some b)
    (hrate : 0 ≤ b.rate) (hord : InOrder arrivals) (hlast : ∀ p ∈ arrivals, m.last ≤ p.1) :
    conforming b.color t₁ t₂ arrivals (m.colors arrivals) ≤ allowance t₁ t₂ m.last b := by
  induction arrivals generalizing m b with
  | nil => exact Nat.zero_le _
  | cons p arrivals ih =>
    obtain ⟨now, input⟩ := p
    obtain ⟨hnow, hord'⟩ := List.pairwise_cons.mp hord
    have hfrom : m.last ≤ now := hlast (now, input) (by simp)
    obtain ⟨tokens, hat, hpaid⟩ := mark_at hdesc hb
    have hrest : conforming b.color t₁ t₂ arrivals ((m.mark now input).2.colors arrivals) ≤
        allowance t₁ t₂ now { b with tokens } :=
      ih (descending_mark hdesc) hat hrate hord' hnow
    rw [colors_cons, conforming_cons]
    have hearn : earned b.rate m.last ≤ earned b.rate now := earned_mono hrate hfrom
    unfold refill at hpaid
    unfold allowance at hrest ⊢
    -- before `t₁`, within the interval, or after it
    rcases lt_or_ge t₁ now with hafter | hbefore
    · rcases le_or_gt now t₂ with hin | hout
      · have hearn₂ : earned b.rate now ≤ earned b.rate t₂ := earned_mono hrate hin
        have hearn₁ : earned b.rate t₁ ≤ earned b.rate now := earned_mono hrate hafter.le
        rw [if_neg (by omega)] at hrest
        simp only [hafter, hin, true_and]
        dsimp only at hrest
        generalize (if (m.mark now input).1 < b.color then input else 0) = spent at hpaid ⊢
        by_cases hlast₁ : m.last ≤ t₁
        · rw [if_pos hlast₁]
          omega
        · rw [if_neg hlast₁]
          omega
      · rw [conforming_eq_zero _ fun p hp => lt_of_lt_of_le hout (hnow p hp),
          if_neg (by omega)]
        exact Nat.zero_le _
    · rw [if_pos hbefore] at hrest
      rw [if_neg (by omega), if_pos (by omega), Nat.zero_add]
      exact hrest

/-- **Conformance bound.**  A marker that starts at time 0 lets through, over any interval, at
most the burst size plus what the rate earns, up to one token of rounding. -/
theorem conforming_le {m : Marker} {i t₁ t₂ : ℕ} {b : Bucket} {arrivals : List (ℕ × ℕ)}
    (hdesc : Descending m.buckets) (hstart : m.last = 0) (hb : m.buckets[i]? = some b)
    (hrate : 0 ≤ b.rate) (hord : InOrder arrivals) (h : t₁ ≤ t₂) :
    (conforming b.color t₁ t₂ arrivals (m.colors arrivals) : ℚ) <
      b.burst + b.rate * (t₂ - t₁) + 1 := by
  have hle : conforming b.color t₁ t₂ arrivals (m.colors arrivals) ≤
      b.burst + (earned b.rate t₂ - earned b.rate t₁) := by
    refine (conforming_le_allowance hdesc hb hrate hord (by simp [hstart])).trans_eq ?_
    rw [allowance, if_pos (by omega)]
  have hcast : (conforming b.color t₁ t₂ arrivals (m.colors arrivals) : ℚ) ≤
      b.burst + ((earned b.rate t₂ - earned b.rate t₁ : ℕ) : ℚ) := by exact_mod_cast hle
  have hround := earned_sub_lt hrate h
  linarith

end Marker
