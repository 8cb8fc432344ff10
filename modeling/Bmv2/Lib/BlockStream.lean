/-
# Hashing a stream block by block

A function that takes its input in blocks of one size, for input that comes in pieces: a buffer keeps what
does not fill a block yet.

* `run_append`: running over two pieces is running over their concatenation;
* `feed_short`, `feed_fill`: what a buffer does with a piece that does not fill it, and with one that does;
* `feed_pieces`: **the pieces do not matter**.
-/
import Mathlib

/-- A function on states that takes blocks of `size` elements. -/
structure Blockwise (σ β : Type) where
  size : ℕ
  size_pos : 0 < size
  block : σ → List β → σ

namespace Blockwise

variable {σ β : Type} (h : Blockwise σ β)

/-- The first `n` blocks of the data. -/
def blocks : ℕ → σ → List β → σ
  | 0, s, _ => s
  | n + 1, s, data => blocks n (h.block s (data.take h.size)) (data.drop h.size)

/-- All whole blocks of the data. -/
def run (s : σ) (data : List β) : σ := h.blocks (data.length / h.size) s data

/-- What is left after the last whole block. -/
def rest (data : List β) : List β := data.drop (data.length / h.size * h.size)

/-! ## One block more -/

theorem length_rest (data : List β) : (h.rest data).length = data.length % h.size := by
  rw [rest, List.length_drop, Nat.mod_eq_sub_div_mul]

theorem length_rest_lt (data : List β) : (h.rest data).length < h.size := by
  rw [length_rest]
  exact Nat.mod_lt _ h.size_pos

theorem run_of_lt {data : List β} (hlt : data.length < h.size) (s : σ) : h.run s data = s := by
  rw [run, Nat.div_eq_of_lt hlt]
  rfl

theorem rest_of_lt {data : List β} (hlt : data.length < h.size) : h.rest data = data := by
  rw [rest, Nat.div_eq_of_lt hlt, Nat.zero_mul, List.drop_zero]

theorem run_block {b : List β} (hb : b.length = h.size) (s : σ) (data : List β) :
    h.run s (b ++ data) = h.run (h.block s b) data := by
  have hdiv : (b ++ data).length / h.size = data.length / h.size + 1 := by
    rw [List.length_append, hb, Nat.add_comm, Nat.add_div_right _ h.size_pos]
  rw [run, hdiv, blocks, ← hb, List.take_left, List.drop_left, run, hb]

theorem rest_block {b : List β} (hb : b.length = h.size) (data : List β) :
    h.rest (b ++ data) = h.rest data := by
  have hdiv : (b ++ data).length / h.size * h.size = b.length + data.length / h.size * h.size := by
    rw [List.length_append, hb, Nat.add_comm, Nat.add_div_right _ h.size_pos, Nat.succ_mul, Nat.add_comm]
  rw [rest, hdiv, ← List.drop_drop, List.drop_left, rest]

/-- One block exactly. -/
theorem run_one {b : List β} (hb : b.length = h.size) (s : σ) : h.run s b = h.block s b := by
  have hnil : ([] : List β).length < h.size := h.size_pos
  have hrun := h.run_block hb s []
  rwa [List.append_nil, h.run_of_lt hnil] at hrun

/-- **Two pieces**: what the first leaves over comes before the second. -/
theorem run_append (s : σ) (x y : List β) : h.run s (x ++ y) = h.run (h.run s x) (h.rest x ++ y) := by
  -- by induction on the length of the first piece, a block at a time
  induction hn : x.length using Nat.strong_induction_on generalizing s x with
  | _ n ih =>
    by_cases hlt : x.length < h.size
    · rw [h.run_of_lt hlt, h.rest_of_lt hlt]
    · have hb : (x.take h.size).length = h.size := by
        rw [List.length_take]
        omega
      have hpos := h.size_pos
      have hdrop : (x.drop h.size).length < n := by
        rw [List.length_drop]
        omega
      rw [← List.take_append_drop h.size x, List.append_assoc, h.run_block hb, h.run_block hb, h.rest_block hb]
      exact ih _ hdrop _ _ rfl

theorem rest_append (x y : List β) : h.rest (x ++ y) = h.rest (h.rest x ++ y) := by
  induction hn : x.length using Nat.strong_induction_on generalizing x with
  | _ n ih =>
    by_cases hlt : x.length < h.size
    · rw [h.rest_of_lt hlt]
    · have hb : (x.take h.size).length = h.size := by
        rw [List.length_take]
        omega
      have hpos := h.size_pos
      have hdrop : (x.drop h.size).length < n := by
        rw [List.length_drop]
        omega
      rw [← List.take_append_drop h.size x, List.append_assoc, h.rest_block hb, h.rest_block hb]
      exact ih _ hdrop _ rfl

/-- The whole blocks at the front of the data, and what is left, on their own. -/
theorem run_prefix (s : σ) (data : List β) :
    h.run s (data.take (data.length / h.size * h.size)) = h.run s data := by
  have hsplit := List.take_append_drop (data.length / h.size * h.size) data
  have hlen : (data.take (data.length / h.size * h.size)).length = data.length / h.size * h.size := by
    rw [List.length_take, Nat.min_eq_left (Nat.div_mul_le_self _ _)]
  have hrest : h.rest (data.take (data.length / h.size * h.size)) = [] := by
    rw [← List.length_eq_zero_iff, length_rest, hlen, Nat.mul_mod_left]
  conv_rhs => rw [← hsplit, run_append, hrest, List.nil_append]
  exact (h.run_of_lt (h.length_rest_lt data) _).symm

/-! ## A buffer for what is left over -/

/-- A state, and the elements that wait for their block to fill. -/
def feed (s : σ × List β) (data : List β) : σ × List β :=
  (h.run s.1 (s.2 ++ data), h.rest (s.2 ++ data))

theorem feed_short {s : σ} {p data : List β} (hlt : p.length + data.length < h.size) :
    h.feed (s, p) data = (s, p ++ data) := by
  have hlt' : (p ++ data).length < h.size := by rwa [List.length_append]
  rw [feed, h.run_of_lt hlt', h.rest_of_lt hlt']

/-- A piece that fills the buffer: the buffer goes as a block, and the rest of the piece starts anew. -/
theorem feed_fill {s : σ} {p data : List β} (hp : p.length ≤ h.size) (hle : h.size ≤ p.length + data.length) :
    h.feed (s, p) data =
      h.feed (h.block s (p ++ data.take (h.size - p.length)), []) (data.drop (h.size - p.length)) := by
  have hb : (p ++ data.take (h.size - p.length)).length = h.size := by
    rw [List.length_append, List.length_take]
    omega
  have hdata : p ++ data = (p ++ data.take (h.size - p.length)) ++ data.drop (h.size - p.length) := by
    rw [List.append_assoc, List.take_append_drop]
  rw [feed, hdata, h.run_block hb, h.rest_block hb]
  rfl

theorem feed_feed (s : σ × List β) (x y : List β) : h.feed (h.feed s x) y = h.feed s (x ++ y) := by
  rw [feed, feed, feed, ← List.append_assoc, h.run_append _ (s.2 ++ x), h.rest_append (s.2 ++ x)]

/-- **The pieces do not matter**: only what they are together. -/
theorem feed_pieces {s : σ × List β} (hs : s.2.length < h.size) (pieces : List (List β)) :
    pieces.foldl h.feed s = h.feed s pieces.flatten := by
  induction pieces generalizing s with
  | nil =>
    have hlt : s.2.length + ([] : List β).length < h.size := hs
    rw [List.foldl_nil, List.flatten_nil, ← Prod.mk.eta (p := s), h.feed_short hlt, List.append_nil]
  | cons x pieces ih =>
    rw [List.foldl_cons, ih (h.length_rest_lt _), feed_feed, List.flatten_cons]

end Blockwise
