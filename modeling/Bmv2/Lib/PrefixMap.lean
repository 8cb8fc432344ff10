/-
# Longest-prefix match

A map from strings to values, and the value it gives to the longest prefix of a
key.  `longestBelow m key n` looks at the prefixes of `key` shorter than `n`, so the
longest match of a key that starts with a block splits into the match behind the
block and the match inside it (`longestMatch_append`).
-/
import Mathlib

variable {α β : Type*}

/-- The value of the longest prefix of `key` with fewer than `n` letters that `m`
holds. -/
def longestBelow (m : List α → Option β) (key : List α) : ℕ → Option β
  | 0 => none
  | n + 1 => (m (key.take n)).or (longestBelow m key n)

/-- The value of the longest prefix of `key` that `m` holds. -/
def longestMatch (m : List α → Option β) (key : List α) : Option β :=
  longestBelow m key (key.length + 1)

/-- `r` is the value of the longest prefix of `key` that `m` holds, and `none` when it
holds no prefix of `key`. -/
def LongestMatch (m : List α → Option β) (key : List α) : Option β → Prop
  | none => ∀ p, p <+: key → m p = none
  | some v => ∃ p, p <+: key ∧ m p = some v ∧ ∀ q, q <+: key → m q ≠ none → q.length ≤ p.length

theorem longestBelow_eq_none {m : List α → Option β} {key : List α} {n : ℕ} :
    longestBelow m key n = none ↔ ∀ i < n, m (key.take i) = none := by
  induction n with
  | zero => simp [longestBelow]
  | succ n ih =>
    rw [longestBelow, Option.or_eq_none_iff, ih]
    exact ⟨fun ⟨hn, hlt⟩ i hi => (Nat.lt_succ_iff_lt_or_eq.mp hi).elim (hlt i) (· ▸ hn),
      fun h => ⟨h n n.lt_succ_self, fun i hi => h i (by omega)⟩⟩

theorem longestBelow_eq_some {m : List α → Option β} {key : List α} {n : ℕ} {v : β}
    (h : longestBelow m key n = some v) :
    ∃ i < n, m (key.take i) = some v ∧ ∀ j < n, m (key.take j) ≠ none → j ≤ i := by
  induction n with
  | zero => simp [longestBelow] at h
  | succ n ih =>
    rw [longestBelow, Option.or_eq_some_iff] at h
    rcases h with hn | ⟨hn, hbelow⟩
    · exact ⟨n, n.lt_succ_self, hn, fun j hj _ => by omega⟩
    · obtain ⟨i, hi, hv, hmax⟩ := ih hbelow
      refine ⟨i, by omega, hv, fun j hj hne => ?_⟩
      rcases Nat.lt_succ_iff_lt_or_eq.mp hj with hj | rfl
      · exact hmax j hj hne
      · exact absurd hn hne

/-- `longestMatch` computes what `LongestMatch` specifies. -/
theorem longestMatch_spec (m : List α → Option β) (key : List α) :
    LongestMatch m key (longestMatch m key) := by
  cases h : longestMatch m key with
  | none =>
    intro p hp
    rw [List.prefix_iff_eq_take.mp hp]
    exact longestBelow_eq_none.mp h _ (Nat.lt_succ_of_le hp.length_le)
  | some v =>
    obtain ⟨i, hi, hv, hmax⟩ := longestBelow_eq_some h
    refine ⟨key.take i, List.take_prefix i key, hv, fun q hq hne => ?_⟩
    rw [List.prefix_iff_eq_take.mp hq] at hne
    have hle := hmax q.length (Nat.lt_succ_of_le hq.length_le) hne
    rw [List.length_take]
    have := hq.length_le
    omega

/-- Among the prefixes of one key the specification picks one value. -/
theorem LongestMatch.eq {m : List α → Option β} {key : List α} {r r' : Option β}
    (h : LongestMatch m key r) (h' : LongestMatch m key r') : r = r' := by
  cases r with
  | none =>
    cases r' with
    | none => rfl
    | some v' =>
      obtain ⟨p, hp, hv, -⟩ := h'
      rw [h p hp] at hv
      exact hv
  | some v =>
    obtain ⟨p, hp, hv, hmax⟩ := h
    cases r' with
    | none =>
      rw [h' p hp] at hv
      exact hv.symm
    | some v' =>
      obtain ⟨p', hp', hv', hmax'⟩ := h'
      have hlen : p.length = p'.length :=
        le_antisymm (hmax' p hp (by simp [hv])) (hmax p' hp' (by simp [hv']))
      have hpp : p = p' := by
        rw [List.prefix_iff_eq_take.mp hp, List.prefix_iff_eq_take.mp hp', hlen]
      rw [← hv, ← hv', hpp]

theorem longestBelow_append (m : List α → Option β) (front rest : List α) (k : ℕ) :
    longestBelow m (front ++ rest) (front.length + k) =
      (longestBelow (fun q => m (front ++ q)) rest k).or (longestBelow m front front.length) := by
  induction k with
  | zero =>
    rw [Nat.add_zero, longestBelow, Option.none_or]
    generalize hn : front.length = n
    have hle : n ≤ front.length := hn.ge
    clear hn
    induction n with
    | zero => rfl
    | succ n ih =>
      rw [longestBelow, longestBelow, ih (by omega), List.take_append_of_le_length (by omega)]
  | succ k ih =>
    rw [← Nat.add_assoc, longestBelow, longestBelow, ih, List.take_length_add_append,
      Option.or_assoc]

/-- The longest match behind a block wins over the matches that end inside it. -/
theorem longestMatch_append (m : List α → Option β) (front rest : List α) :
    longestMatch m (front ++ rest) =
      (longestMatch (fun q => m (front ++ q)) rest).or (longestBelow m front front.length) := by
  rw [longestMatch, List.length_append, Nat.add_assoc, longestBelow_append, longestMatch]
