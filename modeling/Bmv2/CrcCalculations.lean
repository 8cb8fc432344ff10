/-
# CRC calculations

`crc16`, `crc32`, `crcCCITT` and `crc_custom` (`calculations.cpp`): a byte of the
buffer at a time, by a table of 256 entries, in the `int` and `unsigned int`
arithmetic of the code.

* `lookup_eq`: one turn of the loops is eight steps of the division;
* `crcLoop_eq`: the loop over a buffer;
* `table_driven_iff`: the calculations are those of the division, for the buffers
  that the counter of the loop can reach the end of.
-/
import Bmv2.CrcTables
import Bmv2.Phv

namespace Bm

/-- The loop of `reflect`: the data and the reflection after the bits below `nBits`. -/
def reflectLoop (data : BitVec 32) (nBits : ℕ) : ℕ → BitVec 32 × BitVec 32
  | 0 => (data, 0)
  | bit + 1 =>
      let s := reflectLoop data nBits bit
      (s.1 >>> 1, if s.1 &&& 1 ≠ 0 then s.2 ||| (1#32 <<< (nBits - 1 - bit)) else s.2)

/-- `reflect`. -/
def reflect (data : BitVec 32) (nBits : ℕ) : BitVec 32 := (reflectLoop data nBits nBits).2

/-- The loop over the buffer, with the counter `unsigned int byte`, in at most `n` turns; an access
outside of the table ends it too. -/
def crcLoop {w : ℕ} (turn : BitVec w → Byte → Option (BitVec w)) (buf : List Byte) :
    ℕ → BitVec 32 → BitVec w → Option (BitVec w)
  | 0, _, _ => none
  | n + 1, byte, remainder =>
      if byte.toNat < buf.length then do
        let b ← buf[byte.toNat]?
        let remainder ← turn remainder b
        crcLoop turn buf n (byte + 1) remainder
      else some remainder

/-- `crc_table[data] ^ (remainder << 8)`. -/
def lookup {w : ℕ} (crcTable : List (BitVec w)) (data : BitVec 32) (remainder : BitVec w) :
    Option (BitVec w) := do
  let entry ← crcTable[data.toNat]?
  pure ((entry.setWidth 32 ^^^ (remainder.setWidth 32 <<< 8)).setWidth w)

/-- `crc16`; `buf[byte]` is a `char`. -/
def crc16 (n : ℕ) (buf : List Byte) : Option (BitVec 16) := do
  let finalXorValue := 0x0000#16
  let remainder ← crcLoop (fun remainder b =>
    lookup tableCrc16 (reflect (b.signExtend 32) 8 ^^^ (remainder.setWidth 32 >>> 8)) remainder)
    buf n 0 0x0000#16
  pure ((reflect (remainder.setWidth 32) 16 ^^^ finalXorValue.setWidth 32).setWidth 16)

/-- `crc32`. -/
def crc32 (n : ℕ) (buf : List Byte) : Option (BitVec 32) := do
  let finalXorValue := 0xffffffff#32
  let remainder ← crcLoop (fun remainder b =>
    lookup tableCrc32 (reflect (b.signExtend 32) 8 ^^^ (remainder >>> 24)) remainder)
    buf n 0 0xffffffff#32
  pure (reflect remainder 32 ^^^ finalXorValue)

/-- `crcCCITT`. -/
def crcCCITT (n : ℕ) (buf : List Byte) : Option (BitVec 16) := do
  let finalXorValue := 0x0000#16
  let remainder ← crcLoop (fun remainder b =>
    lookup tableCrcCCITT (b.setWidth 32 ^^^ (remainder.setWidth 32 >>> 8)) remainder)
    buf n 0 0xffff#16
  pure ((remainder.setWidth 32 ^^^ finalXorValue.setWidth 32).setWidth 16)

/-- `crc_config_t`. -/
structure CrcConfig (w : ℕ) where
  polynomial : BitVec w
  initialRemainder : BitVec w
  finalXorValue : BitVec w
  dataReflected : Bool
  remainderReflected : Bool
  deriving DecidableEq

/-- `crc_custom`; `w` is the width of its type. -/
structure CrcCustom (w : ℕ) where
  crcTable : List (BitVec w)
  config : CrcConfig w

namespace CrcCustom

/-- The constructor at width 16. -/
def init16 : CrcCustom 16 := ⟨tableCrc16, ⟨0x8005#16, 0x0000#16, 0x0000#16, true, true⟩⟩

/-- The constructor at width 32. -/
def init32 : CrcCustom 32 :=
  ⟨tableCrc32, ⟨0x04c11db7#32, 0xffffffff#32, 0xffffffff#32, true, true⟩⟩

variable {w : ℕ}

/-- The call operator, with at most `n` turns of its loop. -/
def output (c : CrcCustom w) (n : ℕ) (buf : List Byte) : Option (BitVec w) := do
  let remainder ← crcLoop (fun remainder b =>
    lookup c.crcTable (if c.config.dataReflected then
      reflect (b.setWidth 32) 8 ^^^ (remainder.setWidth 32 >>> (w - 8))
    else b.setWidth 32 ^^^ (remainder.setWidth 32 >>> (w - 8))) remainder)
    buf n 0 c.config.initialRemainder
  pure (if c.config.remainderReflected then
    (reflect (remainder.setWidth 32) w ^^^ c.config.finalXorValue.setWidth 32).setWidth w
  else (remainder.setWidth 32 ^^^ c.config.finalXorValue.setWidth 32).setWidth w)

/-- One division step of `recompute_crc_table`. -/
def divideStep (polynomial remainder : BitVec w) : BitVec w :=
  if remainder.setWidth 32 &&& (1#32 <<< (w - 1)) ≠ 0 then
    ((remainder.setWidth 32 <<< 1) ^^^ polynomial.setWidth 32).setWidth w
  else (remainder.setWidth 32 <<< 1).setWidth w

/-- `recompute_crc_table`. -/
def recomputeCrcTable (newConfig : CrcConfig w) : List (BitVec w) :=
  (List.range 256).map fun dividend =>
    (divideStep newConfig.polynomial)^[8] (BitVec.ofNat w (dividend <<< (w - 8)))

/-- `update_config`. -/
def updateConfig (_ : CrcCustom w) (newConfig : CrcConfig w) : CrcCustom w where
  crcTable := recomputeCrcTable newConfig
  config := newConfig

end CrcCustom

/-! ## The specification -/

namespace CrcConfig

variable {w : ℕ}

/-- The bits of a buffer, in the order in which they are divided. -/
def dataBits (c : CrcConfig w) (buf : List Byte) : List Bool :=
  buf.flatMap fun b => Crc.byteBits (if c.dataReflected then b.reverse else b)

/-- The CRC of a configuration: the bits of the buffer are divided one at a time. -/
def crc (c : CrcConfig w) (buf : List Byte) : BitVec w :=
  let remainder := Crc.divide c.polynomial c.initialRemainder (c.dataBits buf)
  (if c.remainderReflected then remainder.reverse else remainder) ^^^ c.finalXorValue

def ofCrc16 : CrcConfig 16 := ⟨0x8005#16, 0x0000#16, 0x0000#16, true, true⟩

def ofCrc32 : CrcConfig 32 := ⟨0x04c11db7#32, 0xffffffff#32, 0xffffffff#32, true, true⟩

def ofCrcCCITT : CrcConfig 16 := ⟨0x1021#16, 0xffff#16, 0x0000#16, false, false⟩

end CrcConfig

/-- A loop returns the value in some number of turns. -/
def ReturnsIn {α : Type} (run : ℕ → Option α) (a : α) : Prop := ∃ n, run n = some a

/-! ## Reflection -/

theorem and_one_ne_zero_iff (x : BitVec 32) : x &&& 1 ≠ 0 ↔ x.getLsbD 0 = true := by
  have hone : x &&& 1 = BitVec.setWidth 32 (BitVec.ofBool (x.getLsbD 0)) :=
    BitVec.and_one_eq_setWidth_ofBool_getLsbD
  rw [hone]
  cases x.getLsbD 0 <;> decide

/-- The loop has moved the data down, and reflected the bits that went by. -/
theorem reflectLoop_spec (data : BitVec 32) {nBits : ℕ} (hn : nBits ≤ 32) {bit : ℕ}
    (hbit : bit ≤ nBits) :
    (reflectLoop data nBits bit).1 = data >>> bit ∧
      ∀ i, (reflectLoop data nBits bit).2.getLsbD i =
        (decide (i < nBits ∧ nBits - 1 - i < bit) && data.getLsbD (nBits - 1 - i)) := by
  induction bit with
  | zero =>
    rw [reflectLoop]
    exact ⟨(BitVec.ushiftRight_zero data).symm, fun i => by simp⟩
  | succ bit ih =>
    obtain ⟨hdata, hrefl⟩ := ih (by omega)
    have hlow : (data >>> bit).getLsbD 0 = data.getLsbD bit := by
      rw [BitVec.getLsbD_ushiftRight, Nat.add_zero]
    rw [reflectLoop]
    dsimp only
    rw [hdata, ← BitVec.shiftRight_add]
    refine ⟨rfl, fun i => ?_⟩
    have hmark : (1#32 <<< (nBits - 1 - bit)).getLsbD i = decide (nBits - 1 - bit = i) := by
      have htwo := BitVec.getLsbD_twoPow (nBits - 1 - bit) i (w := 32)
      rwa [BitVec.twoPow_eq, show decide (nBits - 1 - bit < 32) = true from decide_eq_true (by omega),
        Bool.true_and] at htwo
    have hset : (if data >>> bit &&& 1 ≠ 0 then
        (reflectLoop data nBits bit).2 ||| (1#32 <<< (nBits - 1 - bit))
          else (reflectLoop data nBits bit).2).getLsbD i =
        ((reflectLoop data nBits bit).2.getLsbD i ||
          (decide (nBits - 1 - bit = i) && data.getLsbD bit)) := by
      by_cases hbitSet : data >>> bit &&& 1 ≠ 0
      · rw [if_pos hbitSet, BitVec.getLsbD_or, hmark, ← hlow,
          (and_one_ne_zero_iff _).mp hbitSet, Bool.and_true]
      · rw [and_one_ne_zero_iff, hlow] at hbitSet
        rw [if_neg (by rwa [and_one_ne_zero_iff, hlow]), Bool.eq_false_iff.mpr hbitSet,
          Bool.and_false, Bool.or_false]
    rw [hset, hrefl]
    by_cases hi : nBits - 1 - bit = i
    · subst hi
      rw [show nBits - 1 - (nBits - 1 - bit) = bit by omega]
      simp [show nBits - 1 - bit < nBits by omega]
    · have hiff : decide (i < nBits ∧ nBits - 1 - i < bit) =
          decide (i < nBits ∧ nBits - 1 - i < bit + 1) := decide_eq_decide.mpr (by omega)
      rw [hiff, decide_eq_false hi, Bool.false_and, Bool.or_false]

theorem getLsbD_reflect (data : BitVec 32) {nBits : ℕ} (hn : nBits ≤ 32) (i : ℕ) :
    (reflect data nBits).getLsbD i = (decide (i < nBits) && data.getLsbD (nBits - 1 - i)) := by
  rw [reflect, (reflectLoop_spec data hn le_rfl).2]
  congr 1
  exact decide_eq_decide.mpr (by omega)

/-- The reflection of a register of `w` bits, whatever is above it. -/
theorem reflect_eq_reverse {w : ℕ} (hw : w ≤ 32) {data : BitVec 32} {r : BitVec w}
    (hlow : ∀ i < w, data.getLsbD i = r.getLsbD i) : reflect data w = r.reverse.setWidth 32 := by
  apply BitVec.eq_of_getLsbD_eq
  intro i hi
  rw [getLsbD_reflect data hw, BitVec.getLsbD_setWidth, BitVec.getLsbD_reverse,
    BitVec.getMsbD_eq_getLsbD]
  by_cases hiw : i < w
  · rw [hlow _ (by omega)]
    simp [hi, hiw]
  · simp [hiw]

/-! ## One turn of the loops -/

/-- What a shift to the left in 32 bits moves out of a narrower register is lost. -/
theorem setWidth_shiftLeft {w : ℕ} (hw : w ≤ 32) (r : BitVec w) (n : ℕ) :
    (r.setWidth 32 <<< n).setWidth w = r <<< n := by
  apply BitVec.eq_of_getLsbD_eq
  intro i hi
  rw [BitVec.getLsbD_setWidth, BitVec.getLsbD_shiftLeft, BitVec.getLsbD_setWidth,
    BitVec.getLsbD_shiftLeft]
  simp [hi, show i < 32 by omega, show i - n < 32 by omega]

theorem ofNat_shiftLeft (w d n : ℕ) : BitVec.ofNat w (d <<< n) = BitVec.ofNat w d <<< n := by
  apply BitVec.eq_of_toNat_eq
  rw [BitVec.toNat_shiftLeft, BitVec.toNat_ofNat, BitVec.toNat_ofNat, Nat.shiftLeft_eq,
    Nat.shiftLeft_eq, Nat.mod_mul_mod]

namespace CrcCustom

variable {w : ℕ}

/-- A step of the table's computation is a step of the division. -/
theorem divideStep_eq (hw₁ : 8 ≤ w) (hw₂ : w ≤ 32) (polynomial remainder : BitVec w) :
    divideStep polynomial remainder = Crc.divideBit polynomial remainder false := by
  have htop : remainder.setWidth 32 &&& (1#32 <<< (w - 1)) ≠ 0 ↔ remainder.msb = true := by
    rw [BitVec.msb_eq_getLsbD_last, ← BitVec.twoPow_eq, BitVec.and_twoPow, BitVec.getLsbD_setWidth,
      decide_eq_true (by omega), Bool.true_and]
    cases remainder.getLsbD (w - 1) with
    | false => simp
    | true =>
      simp only [if_true, iff_true]
      intro hzero
      have hbit := congrArg (fun x : BitVec 32 => x.getLsbD (w - 1)) hzero
      simp at hbit
      omega
  have hshift := setWidth_shiftLeft hw₂ remainder 1
  unfold divideStep Crc.divideBit
  rw [Bool.xor_false]
  by_cases hmsb : remainder.msb = true
  · rw [if_pos (htop.mpr hmsb), if_pos hmsb, BitVec.setWidth_xor, hshift,
      BitVec.setWidth_setWidth_of_le _ hw₂, BitVec.setWidth_eq]
  · rw [if_neg (fun h => hmsb (htop.mp h)), if_neg hmsb, hshift]

/-- The computed table is the table of the remainders of all bytes. -/
theorem recomputeCrcTable_eq (hw₁ : 8 ≤ w) (hw₂ : w ≤ 32) (c : CrcConfig w) :
    recomputeCrcTable c = Crc.table c.polynomial := by
  have hsteps (n : ℕ) (r : BitVec w) :
      (divideStep c.polynomial)^[n] r = Crc.divide c.polynomial r (List.replicate n false) := by
    induction n generalizing r with
    | zero => rfl
    | succ n ih => rw [Function.iterate_succ_apply, ih, divideStep_eq hw₁ hw₂, List.replicate_succ,
        Crc.divide_cons]
  unfold recomputeCrcTable Crc.table
  refine List.map_congr_left fun d _ => ?_
  rw [hsteps, ofNat_shiftLeft]

end CrcCustom

/-- One turn: what is looked up does the eight steps of the division. -/
theorem lookup_eq {w : ℕ} (hw₁ : 8 ≤ w) (hw₂ : w ≤ 32) (polynomial remainder : BitVec w) (b : Byte) :
    lookup (Crc.table polynomial) (b.setWidth 32 ^^^ (remainder.setWidth 32 >>> (w - 8))) remainder =
      some (Crc.divide polynomial remainder (Crc.byteBits b)) := by
  have hpow : 2 ^ w = 2 ^ (w - 8) * 256 := by
    rw [show (256 : ℕ) = 2 ^ 8 from rfl, ← Nat.pow_add, Nat.sub_add_cancel hw₁]
  have hhigh : remainder.toNat >>> (w - 8) < 2 ^ 8 := by
    rw [Nat.shiftRight_eq_div_pow]
    exact Nat.div_lt_of_lt_mul (hpow ▸ remainder.isLt)
  have hsmall : 2 ^ 8 ≤ 2 ^ w := Nat.pow_le_pow_right (by norm_num) hw₁
  have hwide : 2 ^ w ≤ 2 ^ 32 := Nat.pow_le_pow_right (by norm_num) hw₂
  have hb : b.toNat < 2 ^ 8 := b.isLt
  have hr : remainder.toNat < 2 ^ w := remainder.isLt
  have hdata : (b.setWidth 32 ^^^ (remainder.setWidth 32 >>> (w - 8))).toNat =
      b.toNat ^^^ (remainder.toNat >>> (w - 8)) := by
    rw [BitVec.toNat_xor, BitVec.toNat_ushiftRight, BitVec.toNat_setWidth, BitVec.toNat_setWidth,
      Nat.mod_eq_of_lt (show b.toNat < 2 ^ 32 by omega),
      Nat.mod_eq_of_lt (show remainder.toNat < 2 ^ 32 by omega)]
  have hindex : b.toNat ^^^ (remainder.toNat >>> (w - 8)) < 256 := Nat.xor_lt_two_pow hb hhigh
  have hentry : BitVec.ofNat w (b.toNat ^^^ (remainder.toNat >>> (w - 8))) =
      b.setWidth w ^^^ (remainder >>> (w - 8)) := by
    apply BitVec.eq_of_toNat_eq
    rw [BitVec.toNat_ofNat, BitVec.toNat_xor, BitVec.toNat_setWidth, BitVec.toNat_ushiftRight,
      Nat.mod_eq_of_lt (show b.toNat < 2 ^ w by omega), Nat.mod_eq_of_lt (by omega)]
  unfold lookup Crc.table
  rw [hdata, List.getElem?_map, List.getElem?_range hindex]
  simp only [Option.map_some, Option.bind_eq_bind, Option.bind_some, hentry]
  rw [BitVec.setWidth_xor, setWidth_shiftLeft hw₂, BitVec.setWidth_setWidth_of_le _ hw₂,
    BitVec.setWidth_eq, ← Crc.divide_byte hw₁]
  rfl

/-- The loop does a turn for each byte, when its counter reaches the end. -/
theorem crcLoop_eq {w : ℕ} {turn : BitVec w → Byte → Option (BitVec w)}
    {f : BitVec w → Byte → BitVec w} (hturn : ∀ r b, turn r b = some (f r b)) {buf : List Byte}
    (hlen : buf.length < 2 ^ 32) {n : ℕ} {byte : BitVec 32} (hn : buf.length - byte.toNat < n)
    (r : BitVec w) : crcLoop turn buf n byte r = some ((buf.drop byte.toNat).foldl f r) := by
  induction n generalizing byte r with
  | zero => omega
  | succ n ih =>
    rw [crcLoop]
    by_cases hlt : byte.toNat < buf.length
    · have hnext : (byte + 1).toNat = byte.toNat + 1 := by
        rw [BitVec.toNat_add, show (1 : BitVec 32).toNat = 1 from rfl]
        omega
      rw [if_pos hlt, List.getElem?_eq_getElem hlt, List.drop_eq_getElem_cons hlt, List.foldl_cons,
        ← hnext]
      simp only [Option.bind_eq_bind, Option.bind_some, hturn]
      exact ih (by omega) _
    · rw [if_neg hlt, List.drop_eq_nil_of_le (not_lt.mp hlt)]
      rfl

/-- A counter of 32 bits does not reach the end of a longer buffer. -/
theorem crcLoop_eq_none {w : ℕ} (turn : BitVec w → Byte → Option (BitVec w)) {buf : List Byte}
    (hlen : 2 ^ 32 ≤ buf.length) (n : ℕ) (byte : BitVec 32) (r : BitVec w) :
    crcLoop turn buf n byte r = none := by
  induction n generalizing byte r with
  | zero => rfl
  | succ n ih =>
    have hlt := byte.isLt
    rw [crcLoop, if_pos (by omega), List.getElem?_eq_getElem (by omega)]
    simp only [Option.bind_eq_bind, ih, Option.bind_fun_none]

/-- The whole loop, when each turn is a look up for a byte, reflected or not. -/
theorem crcLoop_divide {w : ℕ} (c : CrcConfig w) {turn : BitVec w → Byte → Option (BitVec w)}
    (hturn : ∀ r b, turn r b =
      some (Crc.divide c.polynomial r (Crc.byteBits (if c.dataReflected then b.reverse else b))))
    {buf : List Byte} (hlen : buf.length < 2 ^ 32) :
    crcLoop turn buf (buf.length + 1) 0 c.initialRemainder =
      some (Crc.divide c.polynomial c.initialRemainder (c.dataBits buf)) := by
  rw [crcLoop_eq hturn hlen (Nat.lt_succ_of_le (Nat.sub_le _ _))]
  unfold Crc.divide CrcConfig.dataBits
  rw [List.foldl_flatMap]
  rfl

/-! ## The calculations -/

/-- A reflected byte is looked up by its lower eight bits. -/
theorem reflect_byte (b : Byte) {data : BitVec 32} (hdata : ∀ i < 8, data.getLsbD i = b.getLsbD i) :
    reflect data 8 = b.reverse.setWidth 32 := reflect_eq_reverse (by norm_num) hdata

theorem getLsbD_signExtend_of_lt (b : Byte) {i : ℕ} (hi : i < 8) :
    (b.signExtend 32).getLsbD i = b.getLsbD i := by
  rw [BitVec.getLsbD_signExtend]
  simp [hi, show i < 32 by omega]

theorem getLsbD_setWidth_of_lt {w : ℕ} (hw : w ≤ 32) (r : BitVec w) {i : ℕ} (hi : i < w) :
    (r.setWidth 32).getLsbD i = r.getLsbD i := by
  rw [BitVec.getLsbD_setWidth]
  simp [show i < 32 by omega]

/-- The reflection of the remainder, and the final value. -/
theorem reflect_remainder {w : ℕ} (hw : w ≤ 32) (r finalXorValue : BitVec w) :
    (reflect (r.setWidth 32) w ^^^ finalXorValue.setWidth 32).setWidth w =
      r.reverse ^^^ finalXorValue := by
  rw [reflect_eq_reverse hw fun i hi => getLsbD_setWidth_of_lt hw r hi, BitVec.setWidth_xor,
    BitVec.setWidth_setWidth_of_le _ hw, BitVec.setWidth_setWidth_of_le _ hw, BitVec.setWidth_eq,
    BitVec.setWidth_eq]

theorem remainder_xor {w : ℕ} (hw : w ≤ 32) (r finalXorValue : BitVec w) :
    (r.setWidth 32 ^^^ finalXorValue.setWidth 32).setWidth w = r ^^^ finalXorValue := by
  rw [BitVec.setWidth_xor, BitVec.setWidth_setWidth_of_le _ hw, BitVec.setWidth_setWidth_of_le _ hw,
    BitVec.setWidth_eq, BitVec.setWidth_eq]

section Returns

variable {buf : List Byte} (hlen : buf.length < 2 ^ 32)

include hlen

theorem crc16_returns : ReturnsIn (fun n => crc16 n buf) (CrcConfig.ofCrc16.crc buf) := by
  have hturn (r : BitVec 16) (b : Byte) :
      lookup tableCrc16 (reflect (b.signExtend 32) 8 ^^^ (r.setWidth 32 >>> 8)) r =
        some (Crc.divide 0x8005#16 r (Crc.byteBits b.reverse)) := by
    rw [reflect_byte b fun i hi => getLsbD_signExtend_of_lt b hi, tableCrc16_eq_table]
    exact lookup_eq (by norm_num) (by norm_num) _ r b.reverse
  exact ⟨_, Option.bind_eq_some_iff.mpr ⟨_, crcLoop_divide CrcConfig.ofCrc16 hturn hlen,
    congrArg some (reflect_remainder (by norm_num) _ _)⟩⟩

theorem crc32_returns : ReturnsIn (fun n => crc32 n buf) (CrcConfig.ofCrc32.crc buf) := by
  have hturn (r : BitVec 32) (b : Byte) :
      lookup tableCrc32 (reflect (b.signExtend 32) 8 ^^^ (r >>> 24)) r =
        some (Crc.divide 0x04c11db7#32 r (Crc.byteBits b.reverse)) := by
    rw [reflect_byte b fun i hi => getLsbD_signExtend_of_lt b hi, tableCrc32_eq_table]
    have hlookup := lookup_eq (by norm_num) (le_refl 32) 0x04c11db7#32 r b.reverse
    rwa [BitVec.setWidth_eq] at hlookup
  have hreflect (r : BitVec 32) : reflect r 32 ^^^ 0xffffffff#32 = r.reverse ^^^ 0xffffffff#32 := by
    have h := reflect_remainder (le_refl 32) r 0xffffffff#32
    rwa [BitVec.setWidth_eq, BitVec.setWidth_eq, BitVec.setWidth_eq] at h
  exact ⟨_, Option.bind_eq_some_iff.mpr ⟨_, crcLoop_divide CrcConfig.ofCrc32 hturn hlen,
    congrArg some (hreflect _)⟩⟩

theorem crcCCITT_returns : ReturnsIn (fun n => crcCCITT n buf) (CrcConfig.ofCrcCCITT.crc buf) := by
  have hturn (r : BitVec 16) (b : Byte) :
      lookup tableCrcCCITT (b.setWidth 32 ^^^ (r.setWidth 32 >>> 8)) r =
        some (Crc.divide 0x1021#16 r (Crc.byteBits b)) := by
    rw [tableCrcCCITT_eq_table]
    exact lookup_eq (by norm_num) (by norm_num) _ r b
  exact ⟨_, Option.bind_eq_some_iff.mpr ⟨_, crcLoop_divide CrcConfig.ofCrcCCITT hturn hlen,
    congrArg some (remainder_xor (by norm_num) _ _)⟩⟩

/-- `crc_custom` with the table of its polynomial. -/
theorem output_returns {w : ℕ} (hw₁ : 8 ≤ w) (hw₂ : w ≤ 32) {c : CrcCustom w}
    (htable : c.crcTable = Crc.table c.config.polynomial) :
    ReturnsIn (fun n => c.output n buf) (c.config.crc buf) := by
  have hturn (r : BitVec w) (b : Byte) :
      lookup c.crcTable (if c.config.dataReflected then
          reflect (b.setWidth 32) 8 ^^^ (r.setWidth 32 >>> (w - 8))
        else b.setWidth 32 ^^^ (r.setWidth 32 >>> (w - 8))) r =
        some (Crc.divide c.config.polynomial r
          (Crc.byteBits (if c.config.dataReflected then b.reverse else b))) := by
    rw [htable, reflect_byte b fun i hi => getLsbD_setWidth_of_lt (by norm_num) b hi]
    cases c.config.dataReflected with
    | false => exact lookup_eq hw₁ hw₂ _ r b
    | true => exact lookup_eq hw₁ hw₂ _ r b.reverse
  refine ⟨_, Option.bind_eq_some_iff.mpr ⟨_, crcLoop_divide c.config hturn hlen, ?_⟩⟩
  unfold CrcConfig.crc
  cases c.config.remainderReflected with
  | false => exact congrArg some (remainder_xor hw₂ _ _)
  | true => exact congrArg some (reflect_remainder hw₂ _ _)

end Returns

/-- The calculations for a buffer are those of the division. -/
structure TableDriven (buf : List Byte) : Prop where
  crc16 : ReturnsIn (fun n => crc16 n buf) (CrcConfig.ofCrc16.crc buf)
  crc32 : ReturnsIn (fun n => crc32 n buf) (CrcConfig.ofCrc32.crc buf)
  crcCCITT : ReturnsIn (fun n => crcCCITT n buf) (CrcConfig.ofCrcCCITT.crc buf)
  custom16 : ∀ (c : CrcCustom 16) (newConfig : CrcConfig 16),
    ReturnsIn (fun n => (c.updateConfig newConfig).output n buf) (newConfig.crc buf)
  custom32 : ∀ (c : CrcCustom 32) (newConfig : CrcConfig 32),
    ReturnsIn (fun n => (c.updateConfig newConfig).output n buf) (newConfig.crc buf)
  init16 : ∃ r, ReturnsIn (fun n => CrcCustom.init16.output n buf) r ∧
    ReturnsIn (fun n => Bm.crc16 n buf) r
  init32 : ∃ r, ReturnsIn (fun n => CrcCustom.init32.output n buf) r ∧
    ReturnsIn (fun n => Bm.crc32 n buf) r

/-- The calculations are those of the division for the buffers that a counter of 32 bits can go
through. -/
theorem table_driven_iff (buf : List Byte) : TableDriven buf ↔ buf.length < 2 ^ 32 := by
  constructor
  · intro h
    by_contra hlen
    obtain ⟨n, hn⟩ := h.crc16
    obtain ⟨r, hr, -⟩ := Option.bind_eq_some_iff.mp hn
    rw [crcLoop_eq_none _ (not_lt.mp hlen)] at hr
    cases hr
  · intro hlen
    have hcustom {w : ℕ} (hw₁ : 8 ≤ w) (hw₂ : w ≤ 32) (c : CrcCustom w) (newConfig : CrcConfig w) :
        ReturnsIn (fun n => (c.updateConfig newConfig).output n buf) (newConfig.crc buf) :=
      output_returns hlen hw₁ hw₂ (CrcCustom.recomputeCrcTable_eq hw₁ hw₂ newConfig)
    exact {
      crc16 := crc16_returns hlen
      crc32 := crc32_returns hlen
      crcCCITT := crcCCITT_returns hlen
      custom16 := hcustom (by norm_num) (by norm_num)
      custom32 := hcustom (by norm_num) (by norm_num)
      init16 := ⟨_, output_returns hlen (by norm_num) (by norm_num) tableCrc16_eq_table,
        crc16_returns hlen⟩
      init32 := ⟨_, output_returns hlen (by norm_num) (by norm_num) tableCrc32_eq_table,
        crc32_returns hlen⟩ }

example : CrcConfig.ofCrc16.crc [0x0b, 0xb8, 0x1f, 0x90] = 0x5d8a#16 := by decide +kernel

example : CrcConfig.ofCrcCCITT.crc [0x0b, 0xb8, 0x1f, 0x90] = 0x5d75#16 := by decide +kernel

/-- A buffer of 4 GiB: the counter starts again before the end. -/
theorem crc16_never_returns :
    ¬ ReturnsIn (fun n => crc16 n (List.replicate (2 ^ 32) 0))
      (CrcConfig.ofCrc16.crc (List.replicate (2 ^ 32) 0)) := by
  have hlen (b : Byte) : 2 ^ 32 ≤ (List.replicate (2 ^ 32) b).length :=
    List.length_replicate.ge
  rintro ⟨n, hn⟩
  obtain ⟨r, hr, -⟩ := Option.bind_eq_some_iff.mp hn
  rw [crcLoop_eq_none _ (hlen 0)] at hr
  cases hr

end Bm
