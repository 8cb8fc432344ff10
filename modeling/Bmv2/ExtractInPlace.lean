/-
# Moving bit fields in place

`generic_extract` and `generic_deparse` as they write to a buffer that holds
something already, byte by byte; reading or writing outside of a buffer gives `none`.

* `modifyLoop_eq`: what a loop over the bytes leaves;
* `extractInto_eq`, `deparseInto_eq`: the bytes are those of `genericExtract` and
  `genericDeparse`, and the rest of the buffer is left alone;
* `extractInto_slice_iff`: when extraction is bit slicing;
* `deparse_frame`: what deparsing writes, and that nothing else is touched.
-/
import Bmv2.BufBuilder

namespace Bm

/-! ## Writing to a buffer -/

/-- `dst[i] = f(dst[i])`. -/
def modifyAt (dst : List Byte) (i : ℕ) (f : Byte → Option Byte) : Option (List Byte) := do
  let old ← dst[i]?
  let new ← f old
  pure (dst.set i new)

/-- `for (; n > 0; n--, i++) dst[i] = f(i, dst[i])`. -/
def modifyLoop (f : ℕ → Byte → Option Byte) : ℕ → ℕ → List Byte → Option (List Byte)
  | 0, _, dst => some dst
  | n + 1, i, dst => do
      let dst ← modifyAt dst i (f i)
      modifyLoop f n (i + 1) dst

/-- `(data[i] << l) | (data[j] >> r)`. -/
def readPair (data : List Byte) (i j l r : ℕ) : Option Byte := do
  let first ← data[i]?
  let second ← data[j]?
  pure ((first <<< l) ||| (second >>> r))

/-- `generic_extract`, with the buffer `dst` that it writes to. -/
def extractInto (data : List Byte) (bitOffset bitwidth : ℕ) (dst : List Byte) :
    Option (List Byte) :=
  let nbytes := nbitsToNbytes bitwidth
  if bitOffset = 0 ∧ bitwidth % 8 = 0 then modifyLoop (fun i _ => data[i]?) nbytes 0 dst
  else
    let dstOffset := nbytes * 8 - bitwidth
    let mask := 0xff#8 >>> dstOffset
    if bitOffset = dstOffset then do
      let dst ← modifyLoop (fun i _ => data[i]?) nbytes 0 dst
      modifyAt dst 0 fun b => some (b &&& mask)
    else if dstOffset < bitOffset then do
      -- shift left
      let offset := bitOffset - dstOffset
      let i := nbytes - 1
      let dst ← modifyLoop (fun i _ => readPair data i (i + 1) offset (8 - offset)) i 0 dst
      let dst ← modifyAt dst 0 fun b => some (b &&& mask)
      let dst ← modifyAt dst i fun _ => data[i]?.map fun last : Byte => last <<< offset
      if nbytes * 8 < bitOffset + bitwidth then
        modifyAt dst i fun b => data[i + 1]?.map fun next : Byte => b ||| (next >>> (8 - offset))
      else pure dst
    else do
      -- shift right
      let offset := dstOffset - bitOffset
      let dst ← modifyAt dst 0 fun _ => data[0]?.map fun first : Byte => first >>> offset
      let dst ← modifyAt dst 0 fun b => some (b &&& mask)
      modifyLoop (fun i _ => readPair data (i - 1) i (8 - offset) offset) (nbytes - 1) 1 dst

/-- `generic_deparse`, byte by byte. -/
def deparseInto (data : List Byte) (bitwidth : ℕ) (dst : List Byte) (hdrOffset : ℕ) :
    Option (List Byte) :=
  let nbytes := nbitsToNbytes bitwidth
  if hdrOffset = 0 ∧ bitwidth % 8 = 0 then modifyLoop (fun i _ => data[i]?) nbytes 0 dst
  else do
    let fieldOffset := nbytes * 8 - bitwidth
    let hdrBytes := nbitsToNbytes (hdrOffset + bitwidth)
    let dst ← modifyAt dst 0 fun b => some (b &&& ~~~(0xff#8 >>> hdrOffset))
    if fieldOffset = hdrOffset then do
      let dst ← modifyLoop (fun i _ => data[i]?) (hdrBytes - 1) 1 dst
      modifyAt dst 0 fun b => data[0]?.map (b ||| ·)
    else if hdrOffset < fieldOffset then do
      -- shift left: the bytes behind the first are cleared
      let offset := fieldOffset - hdrOffset
      let dst ← modifyLoop (fun _ _ => some 0) (hdrBytes - 1) 1 dst
      let dst ← modifyLoop (fun i b => (readPair data i (i + 1) offset (8 - offset)).map (b ||| ·))
        (hdrBytes - 1) 0 dst
      modifyAt dst (hdrBytes - 1) fun b =>
        data[hdrBytes - 1]?.map fun last : Byte => b ||| (last <<< offset)
    else do
      -- shift right
      let offset := hdrOffset - fieldOffset
      let dst ← modifyAt dst 0 fun b => data[0]?.map fun head : Byte => b ||| (head >>> offset)
      if nbytes = 1 then modifyAt dst 1 fun _ => data[0]?.map fun head : Byte => head <<< (8 - offset)
      else do
        let dst ← modifyLoop (fun i _ => readPair data (i - 1) i (8 - offset) offset)
          (hdrBytes - 2) 1 dst
        let tailOffset := hdrBytes * 8 - (hdrOffset + bitwidth)
        let dst ← modifyAt dst (hdrBytes - 1) fun b => some (b &&& BitVec.ofNat 8 (2 ^ tailOffset - 1))
        modifyAt dst (hdrBytes - 1) fun b =>
          data[hdrBytes - 2]?.map fun last : Byte => b ||| (last <<< (8 - offset))

/-! ## Loops -/

theorem modifyAt_append (pre : List Byte) (b : Byte) (post : List Byte) (f : Byte → Option Byte) :
    modifyAt (pre ++ b :: post) pre.length f = (f b).map fun new => pre ++ new :: post := by
  unfold modifyAt
  rw [List.getElem?_append_right le_rfl, Nat.sub_self]
  cases hf : f b with
  | none => simp [hf]
  | some new => simp [hf]

/-- The first byte. -/
theorem modifyAt_zero (b : Byte) (post : List Byte) (f : Byte → Option Byte) :
    modifyAt (b :: post) 0 f = (f b).map (· :: post) :=
  modifyAt_append [] b post f

/-- A loop changes the bytes `xs` of the buffer to the bytes `ys`. -/
theorem modifyLoop_eq {f : ℕ → Byte → Option Byte} (pre : List Byte) {xs ys : List Byte}
    (hlen : ys.length = xs.length) (post : List Byte)
    (hf : ∀ (k : ℕ) (x y : Byte), xs[k]? = some x → ys[k]? = some y → f (pre.length + k) x = some y) :
    modifyLoop f xs.length pre.length (pre ++ xs ++ post) = some (pre ++ ys ++ post) := by
  induction xs generalizing ys pre with
  | nil =>
    obtain rfl : ys = [] := List.length_eq_zero_iff.mp hlen
    rfl
  | cons x xs ih =>
    match ys with
    | [] => simp at hlen
    | y :: ys =>
      have hhead : f pre.length x = some y := hf 0 x y rfl rfl
      have hrest := ih (pre ++ [y]) (by simpa using hlen) fun k x' y' hx hy => by
        rw [List.length_append, List.length_singleton, Nat.add_assoc, Nat.add_comm 1 k]
        exact hf (k + 1) x' y' hx hy
      rw [List.length_cons, modifyLoop, List.append_assoc, List.cons_append, modifyAt_append, hhead]
      rw [List.length_append, List.length_singleton] at hrest
      simpa using hrest

section Loops

variable {f : ℕ → Byte → Option Byte} {dst bytes : List Byte}

/-- A loop from `i` writes `bytes`. -/
theorem modifyLoop_at {i n : ℕ} (hlen : bytes.length = n) (hdst : i + n ≤ dst.length)
    (hf : ∀ (k : ℕ) (x y : Byte), dst[i + k]? = some x → bytes[k]? = some y → f (i + k) x = some y) :
    modifyLoop f n i dst = some (dst.take i ++ bytes ++ dst.drop (i + n)) := by
  have hsplit : dst = dst.take i ++ (dst.drop i).take n ++ dst.drop (i + n) := by
    rw [List.append_assoc, ← List.drop_drop, List.take_append_drop, List.take_append_drop]
  have hpre : (dst.take i).length = i := by
    rw [List.length_take]
    omega
  have hmid : ((dst.drop i).take n).length = n := by
    rw [List.length_take, List.length_drop]
    omega
  have hloop : modifyLoop f ((dst.drop i).take n).length (dst.take i).length
      (dst.take i ++ (dst.drop i).take n ++ dst.drop (i + n)) =
        some (dst.take i ++ bytes ++ dst.drop (i + n)) :=
    modifyLoop_eq (dst.take i) (hlen.trans hmid.symm) (dst.drop (i + n)) fun k x y hx hy => by
      have hk : k < n := hmid ▸ (List.getElem?_eq_some_iff.mp hx).1
      rw [List.getElem?_take_of_lt hk, List.getElem?_drop] at hx
      rw [hpre]
      exact hf k x y hx hy
  rwa [hpre, hmid, ← hsplit] at hloop

/-- `memcpy`. -/
theorem modifyLoop_copy {data : List Byte} {n : ℕ} (hdata : n ≤ data.length) (hdst : n ≤ dst.length) :
    modifyLoop (fun i _ => data[i]?) n 0 dst = some (data.take n ++ dst.drop n) := by
  have hlen : (data.take n).length = n := by
    rw [List.length_take]
    omega
  have hloop := modifyLoop_at (f := fun i _ => data[i]?) (i := 0) hlen
    (show 0 + n ≤ dst.length by omega) fun k x y _ hy => by
    have hk : k < n := hlen ▸ (List.getElem?_eq_some_iff.mp hy).1
    rw [List.getElem?_take_of_lt hk] at hy
    rw [Nat.zero_add]
    exact hy
  simpa using hloop

/-- A loop that writes the windows of `data`. -/
theorem modifyLoop_shl {data : List Byte} {o n i : ℕ} (hdata : n < data.length ∨ n = 0)
    (hdst : i + n ≤ dst.length)
    (hf : ∀ (k : ℕ) (a b x : Byte), data[k]? = some a → data[k + 1]? = some b →
      f (i + k) x = some (shlWindow o a b)) :
    ∃ bytes, shlLoop o n data = some bytes ∧ bytes.length = n ∧
      modifyLoop f n i dst = some (dst.take i ++ bytes ++ dst.drop (i + n)) := by
  obtain ⟨bytes, hrun, hlen, hbytes⟩ := shlLoop_eq_some (o := o) hdata
  refine ⟨bytes, hrun, hlen, modifyLoop_at hlen hdst fun k x y _ hy => ?_⟩
  have hk : k < n := hlen ▸ (List.getElem?_eq_some_iff.mp hy).1
  have ha := List.getElem?_eq_getElem (show k < data.length by omega)
  have hb := List.getElem?_eq_getElem (show k + 1 < data.length by omega)
  have hwindow := hbytes k hk
  rw [ha, hb, Option.getD_some, Option.getD_some, hy] at hwindow
  rw [hf k _ _ x ha hb, hwindow]

/-- The first byte of a buffer that starts with `bytes`. -/
theorem modifyAt_front (hne : bytes ≠ []) (post : List Byte) (g : Byte → Byte) :
    modifyAt (bytes ++ post) 0 (fun b => some (g b)) = some (bytes.modify 0 g ++ post) := by
  match bytes with
  | [] => exact absurd rfl hne
  | b :: bs => exact modifyAt_zero b (bs ++ post) _

end Loops

/-! ## Extraction -/

section Extract

variable {data dst : List Byte} {bitOffset bitwidth : ℕ}

/-- The bytes that are written are those of `genericExtract`. -/
theorem extractInto_eq (hoff : bitOffset < 8) (hw : 0 < bitwidth)
    (hdata : nbitsToNbytes (bitOffset + bitwidth) ≤ data.length)
    (hdst : nbitsToNbytes bitwidth ≤ dst.length) :
    ∃ bytes, genericExtract data bitOffset bitwidth = some bytes ∧
      extractInto data bitOffset bitwidth dst =
        some (bytes ++ dst.drop (nbitsToNbytes bitwidth)) := by
  have hspans : nbitsToNbytes bitwidth ≤ nbitsToNbytes (bitOffset + bitwidth) := by
    unfold nbitsToNbytes
    omega
  have hpos : 0 < nbitsToNbytes bitwidth := by
    unfold nbitsToNbytes
    omega
  unfold genericExtract extractInto
  dsimp only
  by_cases haligned : bitOffset = 0 ∧ bitwidth % 8 = 0
  · rw [if_pos haligned, if_pos haligned, if_pos (by omega)]
    exact ⟨_, rfl, modifyLoop_copy (by omega) hdst⟩
  rw [if_neg haligned, if_neg haligned, if_neg (by omega)]
  by_cases hsame : bitOffset = nbitsToNbytes bitwidth * 8 - bitwidth
  · rw [if_pos hsame, if_pos hsame, if_pos (by omega), modifyLoop_copy (by omega) hdst]
    have hne : data.take (nbitsToNbytes bitwidth) ≠ [] := by
      rw [ne_eq, List.take_eq_nil_iff]
      rintro (h | rfl)
      · omega
      · simp at hdata
        omega
    exact ⟨_, rfl, modifyAt_front hne _ _⟩
  rw [if_neg hsame, if_neg hsame]
  by_cases hleft : nbitsToNbytes bitwidth * 8 - bitwidth < bitOffset
  · -- shift left: one more byte is read than is written
    rw [if_pos hleft, if_pos hleft]
    generalize hn : nbitsToNbytes bitwidth = n at *
    have hm : nbitsToNbytes (bitOffset + bitwidth) = n + 1 := by
      unfold nbitsToNbytes at *
      omega
    have hbeyond : n * 8 < bitOffset + bitwidth := by omega
    obtain ⟨bytes, hrun, hlen, hloop⟩ := modifyLoop_shl (o := bitOffset - (n * 8 - bitwidth))
      (f := fun i _ => readPair data i (i + 1) (bitOffset - (n * 8 - bitwidth))
        (8 - (bitOffset - (n * 8 - bitwidth))))
      (show n - 1 < data.length ∨ n - 1 = 0 by omega) (show 0 + (n - 1) ≤ dst.length by omega)
      fun k a b x ha hb => by
        rw [Nat.zero_add, readPair, ha, hb]
        rfl
    have hrest : dst.drop (0 + (n - 1)) = dst[n - 1] :: dst.drop n := by
      rw [Nat.zero_add, List.drop_eq_getElem_cons (by omega), show n - 1 + 1 = n by omega]
    rw [List.take_zero, List.nil_append, hrest] at hloop
    have hlast := List.getElem?_eq_getElem (show n - 1 < data.length by omega)
    have hnext := List.getElem?_eq_getElem (show n < data.length by omega)
    obtain ⟨x, hmask⟩ : ∃ x, modifyAt (bytes ++ dst[n - 1] :: dst.drop n) 0
        (fun b => some (b &&& (0xff#8 >>> (n * 8 - bitwidth)))) =
          some (bytes.modify 0 (· &&& (0xff#8 >>> (n * 8 - bitwidth))) ++ x :: dst.drop n) := by
      cases bytes with
      | nil => exact ⟨_, modifyAt_zero ..⟩
      | cons b bs => exact ⟨_, modifyAt_front (List.cons_ne_nil b bs) _ _⟩
    have hfront : (bytes.modify 0 (· &&& (0xff#8 >>> (n * 8 - bitwidth)))).length = n - 1 := by
      rw [List.length_modify, hlen]
    have hat (b : Byte) (g : Byte → Option Byte) :
        modifyAt (bytes.modify 0 (· &&& (0xff#8 >>> (n * 8 - bitwidth))) ++ b :: dst.drop n) (n - 1) g =
          (g b).map fun new =>
            bytes.modify 0 (· &&& (0xff#8 >>> (n * 8 - bitwidth))) ++ new :: dst.drop n := by
      rw [← hfront]
      exact modifyAt_append _ b _ g
    rw [hrun, hloop]
    simp only [Option.bind_eq_bind, Option.bind_some, hmask, hat, hlast, Option.map_some,
      if_pos hbeyond, show n - 1 + 1 = n by omega, hnext]
    exact ⟨_, rfl, by rw [List.append_assoc]; rfl⟩
  · -- shift right
    rw [if_neg hleft, if_neg hleft]
    generalize hn : nbitsToNbytes bitwidth = n at *
    generalize ho : n * 8 - bitwidth - bitOffset = o
    have ho8 : 8 - (8 - o) = o := by
      unfold nbitsToNbytes at hn
      omega
    match dst with
    | [] =>
      rw [List.length_nil] at hdst
      omega
    | x :: rest =>
      have hfirst := List.getElem?_eq_getElem (show 0 < data.length by omega)
      have hroom : 1 + (n - 1) ≤
          (((data[0] >>> o) &&& (0xff#8 >>> (n * 8 - bitwidth))) :: rest).length := by
        rw [List.length_cons] at hdst ⊢
        omega
      obtain ⟨bytes, hrun, hlen, hloop⟩ := modifyLoop_shl (o := 8 - o)
        (f := fun i _ => readPair data (i - 1) i (8 - o) o)
        (show n - 1 < data.length ∨ n - 1 = 0 by omega) hroom
        fun k a b y ha hb => by
          rw [readPair, show 1 + k - 1 = k by omega, show 1 + k = k + 1 by omega, ha, hb, shlWindow, ho8]
          rfl
      rw [modifyAt_zero, hfirst]
      simp only [Option.map_some, Option.bind_eq_bind, Option.bind_some, modifyAt_zero, hrun, hloop]
      refine ⟨_, rfl, ?_⟩
      obtain ⟨m, rfl⟩ : ∃ m, n = m + 1 := ⟨n - 1, by omega⟩
      rw [show 1 + (m + 1 - 1) = m + 1 by omega]
      rfl

/-- The number that the `w` bits from the bit `start` denote. -/
def sliceNat (data : List Byte) (start w : ℕ) : ℕ :=
  beNat data / 2 ^ (8 * data.length - (start + w)) % 2 ^ w

theorem testBit_sliceNat {start w : ℕ} (hle : start + w ≤ 8 * data.length) (k : ℕ) :
    (sliceNat data start w).testBit k = (decide (k < w) && bitAt data (start + w - 1 - k)) := by
  unfold sliceNat
  rw [Nat.testBit_mod_two_pow, Nat.testBit_div_two_pow]
  by_cases hk : k < w
  · rw [show k + (8 * data.length - (start + w)) = 8 * data.length - 1 - (start + w - 1 - k) by omega,
      testBit_beNat data (by omega)]
  · rw [decide_eq_false hk, Bool.false_and, Bool.false_and]

/-- The canonical bytes of a slice. -/
theorem bitAt_sliceNat {start w i : ℕ} (hle : start + w ≤ 8 * data.length)
    (hi : i < 8 * nbitsToNbytes w) :
    bitAt (natToBytes (nbitsToNbytes w) (sliceNat data start w)) i =
      (decide (fieldPad w ≤ i) && bitAt data (start + i - fieldPad w)) := by
  have hpad := fieldPad_add w
  rw [bitAt_natToBytes _ hi, testBit_sliceNat hle]
  by_cases hin : fieldPad w ≤ i
  · rw [decide_eq_true hin, decide_eq_true (by omega)]
    congr 2
    omega
  · rw [decide_eq_false hin, decide_eq_false (by omega), Bool.false_and, Bool.false_and]

/-- No byte is read behind the last one with a bit of the field. -/
theorem extractInto_take (hoff : bitOffset < 8) (hw : 0 < bitwidth)
    (hdata : nbitsToNbytes (bitOffset + bitwidth) ≤ data.length)
    (hdst : nbitsToNbytes bitwidth ≤ dst.length) :
    extractInto (data.take (nbitsToNbytes (bitOffset + bitwidth))) bitOffset bitwidth dst =
      extractInto data bitOffset bitwidth dst := by
  have hlen : (data.take (nbitsToNbytes (bitOffset + bitwidth))).length =
      nbitsToNbytes (bitOffset + bitwidth) := by
    rw [List.length_take]
    omega
  obtain ⟨bytes, hbytes, hrun⟩ := extractInto_eq hoff hw hdata hdst
  obtain ⟨bytes', hbytes', hrun'⟩ := extractInto_eq hoff hw hlen.ge hdst
  obtain ⟨b, hb, hlenb, hread⟩ := genericExtract_readBit hoff (.inl hw) hdata
  obtain ⟨b', hb', hlenb', hread'⟩ := genericExtract_readBit hoff (.inl hw) hlen.ge
  obtain rfl := Option.some.inj (hbytes.symm.trans hb)
  obtain rfl := Option.some.inj (hbytes'.symm.trans hb')
  have hpad := fieldPad_add bitwidth
  have hround : bitOffset + bitwidth ≤ 8 * nbitsToNbytes (bitOffset + bitwidth) := by
    unfold nbitsToNbytes
    omega
  rw [hrun, hrun', eq_of_bitAt_eq (hlenb'.trans hlenb.symm) fun i hi => ?_]
  rw [hlenb'] at hi
  rw [hread i hi, hread' i hi, readBit, readBit, bitAt_take _ (by omega)]

/-- When extraction is bit slicing: unless a field of less than a byte crosses a byte boundary, and
a bit in front of it, where its padding comes from, is set. -/
theorem extractInto_slice_iff (hoff : bitOffset < 8) (hw : 0 < bitwidth)
    (hdata : bitOffset + bitwidth ≤ 8 * data.length)
    (hdst : nbitsToNbytes bitwidth ≤ dst.length) :
    (extractInto data bitOffset bitwidth dst =
        some (natToBytes (nbitsToNbytes bitwidth) (sliceNat data bitOffset bitwidth) ++
          dst.drop (nbitsToNbytes bitwidth)) ∧
      extractInto (data.take (nbitsToNbytes (bitOffset + bitwidth))) bitOffset bitwidth dst =
        extractInto data bitOffset bitwidth dst) ↔
    (StrayPadding bitOffset bitwidth →
      ∀ p, bitOffset + bitwidth ≤ p + 8 → p < bitOffset → bitAt data p = false) := by
  have hround : nbitsToNbytes (bitOffset + bitwidth) ≤ data.length := by
    unfold nbitsToNbytes
    omega
  obtain ⟨bytes, hbytes, hrun⟩ := extractInto_eq hoff hw hround hdst
  obtain ⟨b, hb, hlen, hread⟩ := genericExtract_readBit hoff (.inl hw) hround
  obtain rfl := Option.some.inj (hbytes.symm.trans hb)
  have hpad := fieldPad_add bitwidth
  have hlen' : (natToBytes (nbitsToNbytes bitwidth) (sliceNat data bitOffset bitwidth)).length =
      nbitsToNbytes bitwidth := length_natToBytes _ _
  have hstray (h : StrayPadding bitOffset bitwidth) : nbitsToNbytes bitwidth = 1 := by
    unfold nbitsToNbytes
    have := h.1
    omega
  rw [and_iff_left (extractInto_take hoff hw hround hdst), hrun, Option.some.injEq,
    List.append_left_inj]
  constructor
  · intro heq hst p hp hp'
    obtain ⟨hlt, hcross⟩ := hst
    have hone := hstray ⟨hlt, hcross⟩
    have hbit := hread (p + fieldPad bitwidth - bitOffset) (by omega)
    rw [heq, bitAt_sliceNat hdata (by omega), decide_eq_false (by omega), Bool.false_and, readBit,
      Nat.mod_eq_of_lt hoff, decide_eq_true (.inr ⟨hlt, hcross⟩), Bool.true_and] at hbit
    rw [hbit]
    congr 1
    omega
  · intro hclear
    refine eq_of_bitAt_eq (hlen.trans hlen'.symm) fun i hi => ?_
    rw [hlen] at hi
    rw [hread i hi, bitAt_sliceNat hdata hi, readBit, Nat.mod_eq_of_lt hoff]
    by_cases hin : fieldPad bitwidth ≤ i
    · rw [decide_eq_true hin, decide_eq_true (.inl hin)]
    · rw [decide_eq_false hin, Bool.false_and, Bool.and_eq_false_iff, decide_eq_false_iff_not]
      by_cases hst : StrayPadding bitOffset bitwidth
      · have hone := hstray hst
        obtain ⟨hlt, hcross⟩ := hst
        exact .inr (hclear ⟨hlt, hcross⟩ _ (by omega) (by omega))
      · exact .inl (by simp [hin, hst])

/-- Ten bits from the bit 3, over what the buffer held. -/
theorem extractInto_slice_iff_ten :
    extractInto [0x1f, 0xa7, 0x55] 3 10 [0xee, 0xee, 0xee] = some ([0x03, 0xf4] ++ [0xee]) := by
  have hiff := extractInto_slice_iff (show 3 < 8 by norm_num) (show 0 < 10 by norm_num)
    (show 3 + 10 ≤ 8 * ([0x1f, 0xa7, 0x55] : List Byte).length by decide)
    (show nbitsToNbytes 10 ≤ ([0xee, 0xee, 0xee] : List Byte).length by decide)
  exact (hiff.mpr fun h => absurd h (by decide)).1

/-- Four bits from the bit 6, after six ones. -/
theorem extractInto_stray :
    extractInto [0xff, 0x00] 6 4 [0x00] = some [0xfc] ∧
      extractInto [0xff, 0x00] 6 4 [0x00] ≠ some (natToBytes 1 (sliceNat [0xff, 0x00] 6 4)) := by
  decide

end Extract

/-! ## Deparsing -/

section Deparse

variable {data dst : List Byte} {hdrOffset bitwidth : ℕ}

/-- A left shift over bytes that were cleared: only the first byte had something in it. -/
theorem modifyLoop_or {o n : ℕ} (hdata : n < data.length ∨ n = 0) (first : Byte) (post : List Byte) :
    ∃ bytes, shlLoop o n data = some bytes ∧ bytes.length = n ∧ ∀ last : Byte,
      ((modifyLoop (fun i b => (readPair data i (i + 1) o (8 - o)).map (b ||| ·)) n 0
          (first :: List.replicate n 0 ++ post)).bind fun dst =>
        modifyAt dst n fun b => some (b ||| last)) =
      some ((bytes ++ [last]).modify 0 (first ||| ·) ++ post) := by
  obtain ⟨bytes, hrun, hlen, hbytes⟩ := shlLoop_eq_some (o := o) hdata
  refine ⟨bytes, hrun, hlen, fun last => ?_⟩
  cases n with
  | zero =>
    obtain rfl : bytes = [] := List.length_eq_zero_iff.mp hlen
    exact modifyAt_zero first post _
  | succ n =>
    match bytes with
    | [] => simp at hlen
    | w :: ws =>
      have hloop := modifyLoop_at (i := 0) (n := n + 1)
        (f := fun i b => (readPair data i (i + 1) o (8 - o)).map (b ||| ·))
        (show ((first ||| w) :: ws).length = n + 1 from hlen)
        (show 0 + (n + 1) ≤ (first :: List.replicate (n + 1) 0 ++ post).length by
          rw [List.length_append, List.length_cons, List.length_replicate]
          omega) fun k x y hx hy => by
        have hk : k < n + 1 := by
          have hlt := (List.getElem?_eq_some_iff.mp hy).1
          rw [List.length_cons] at hlt hlen
          omega
        have ha := List.getElem?_eq_getElem (show k < data.length by omega)
        have hb := List.getElem?_eq_getElem (show k + 1 < data.length by omega)
        have hwindow := hbytes k hk
        rw [ha, hb, Option.getD_some, Option.getD_some] at hwindow
        rw [Nat.zero_add] at hx ⊢
        rw [readPair, ha, hb]
        cases k with
        | zero =>
          obtain rfl := Option.some.inj hx
          obtain rfl := Option.some.inj hy
          rw [Option.some.inj hwindow]
          rfl
        | succ k =>
          have hzero : x = 0 := by
            rw [List.cons_append, List.getElem?_cons_succ,
              List.getElem?_append_left (by rw [List.length_replicate]; omega),
              List.getElem?_replicate, if_pos (by omega)] at hx
            exact (Option.some.inj hx).symm
          rw [List.getElem?_cons_succ] at hy hwindow
          rw [hy] at hwindow
          obtain rfl := Option.some.inj hwindow
          subst hzero
          exact congrArg some BitVec.zero_or
      have hrest : (first :: List.replicate (n + 1) 0 ++ post).drop (0 + (n + 1)) = 0 :: post := by
        rw [Nat.zero_add, List.cons_append, List.drop_succ_cons, List.replicate_succ',
          List.append_assoc, List.drop_left' List.length_replicate]
        rfl
      have hat := modifyAt_append ((first ||| w) :: ws) 0 post fun b => some (b ||| last)
      rw [show ((first ||| w) :: ws).length = n + 1 from hlen] at hat
      have hzero : (0 : Byte) ||| last = last := BitVec.zero_or
      rw [hloop, hrest, List.take_zero, List.nil_append, Option.bind_some, hat, Option.map_some, hzero]
      simp

/-- The buffer that is left is that of `genericDeparse`. -/
theorem deparseInto_eq (hoff : hdrOffset < 8) (hw : 0 < bitwidth)
    (hdata : data.length = nbitsToNbytes bitwidth)
    (hdst : nbitsToNbytes (hdrOffset + bitwidth) ≤ dst.length) :
    deparseInto data bitwidth dst hdrOffset = genericDeparse data bitwidth dst hdrOffset := by
  have hpos : 0 < nbitsToNbytes bitwidth := by
    unfold nbitsToNbytes
    omega
  have hspans : nbitsToNbytes bitwidth ≤ nbitsToNbytes (hdrOffset + bitwidth) := by
    unfold nbitsToNbytes
    omega
  have hwidth : bitwidth ≤ nbitsToNbytes bitwidth * 8 ∧ nbitsToNbytes bitwidth * 8 < bitwidth + 8 := by
    unfold nbitsToNbytes
    omega
  have hround : hdrOffset + bitwidth ≤ nbitsToNbytes (hdrOffset + bitwidth) * 8 ∧
      nbitsToNbytes (hdrOffset + bitwidth) * 8 < hdrOffset + bitwidth + 8 := by
    unfold nbitsToNbytes
    omega
  unfold deparseInto genericDeparse
  dsimp only
  generalize nbitsToNbytes (hdrOffset + bitwidth) = m at *
  generalize nbitsToNbytes bitwidth = n at *
  by_cases haligned : hdrOffset = 0 ∧ bitwidth % 8 = 0
  · rw [if_pos haligned, if_pos haligned, if_pos (by omega), modifyLoop_copy (by omega) (by omega)]
  rw [if_neg haligned, if_neg haligned, if_neg (by omega)]
  match dst with
  | [] =>
    rw [List.length_nil] at hdst
    omega
  | d :: rest =>
    rw [List.length_cons] at hdst
    have hhead := List.getElem?_eq_getElem (show 0 < data.length by omega)
    simp only [modifyAt_zero, Option.map_some, Option.bind_eq_bind, Option.bind_some, hhead,
      List.getElem?_cons_zero]
    generalize d &&& ~~~(0xff#8 >>> hdrOffset) = first
    by_cases hsame : n * 8 - bitwidth = hdrOffset
    · rw [if_pos hsame, if_pos hsame, if_pos (by omega)]
      obtain rfl : m = n := by omega
      have hlen : ((data.take m).drop 1).length = m - 1 := by
        rw [List.length_drop, List.length_take]
        omega
      have hloop := modifyLoop_at (f := fun i _ => data[i]?) (i := 1) hlen
        (show 1 + (m - 1) ≤ (first :: rest).length by rw [List.length_cons]; omega)
        fun k x y _ hy => by
          have hk : k < m - 1 := hlen ▸ (List.getElem?_eq_some_iff.mp hy).1
          rw [List.getElem?_drop, List.getElem?_take_of_lt (by omega)] at hy
          exact hy
      rw [hloop, show 1 + (m - 1) = m by omega]
      obtain ⟨k, rfl⟩ : ∃ k, m = k + 1 := ⟨m - 1, by omega⟩
      rfl
    rw [if_neg hsame, if_neg hsame]
    by_cases hleft : hdrOffset < n * 8 - bitwidth
    · rw [if_pos hleft, if_pos hleft]
      generalize n * 8 - bitwidth - hdrOffset = o
      have hfill := modifyLoop_at (f := fun _ _ => some 0) (i := 1) (List.length_replicate (n := m - 1))
        (show 1 + (m - 1) ≤ (first :: rest).length by rw [List.length_cons]; omega)
        fun k x y _ hy => by
          rw [List.getElem?_replicate] at hy
          split at hy
          · exact hy
          · cases hy
      obtain ⟨bytes, hrun, hlen, hor⟩ := modifyLoop_or (o := o)
        (show m - 1 < data.length ∨ m - 1 = 0 by omega) first (rest.drop (m - 1))
      have hlast := List.getElem?_eq_getElem (show m - 1 < data.length by omega)
      have hor := hor (data[m - 1] <<< o)
      rw [hfill, hrun, hlast]
      simp only [Option.map_some, Option.bind_some]
      obtain ⟨k, rfl⟩ : ∃ k, m = k + 1 := ⟨m - 1, by omega⟩
      rw [show 1 + (k + 1 - 1) = k + 1 by omega]
      exact hor
    · rw [if_neg hleft, if_neg hleft]
      have ho8 : 8 - (8 - (hdrOffset - (n * 8 - bitwidth))) = hdrOffset - (n * 8 - bitwidth) := by
        omega
      have hm : m = n + 1 := by omega
      subst hm
      generalize hdrOffset - (n * 8 - bitwidth) = o at *
      generalize first ||| (data[0] >>> o) = first
      by_cases hone : n = 1
      · subst hone
        rw [if_pos rfl, if_pos rfl]
        obtain ⟨e, rest, rfl⟩ := List.exists_cons_of_length_pos (show 0 < rest.length by omega)
        exact modifyAt_append [first] e rest _
      · rw [if_neg hone, if_neg hone]
        obtain ⟨bytes, hrun, hlen, hloop⟩ := modifyLoop_shl (o := 8 - o)
          (f := fun i _ => readPair data (i - 1) i (8 - o) o)
          (show n - 1 < data.length ∨ n - 1 = 0 by omega)
          (show 1 + (n - 1) ≤ (first :: rest).length by rw [List.length_cons]; omega)
          fun k a b y ha hb => by
            rw [readPair, show 1 + k - 1 = k by omega, show 1 + k = k + 1 by omega, ha, hb, shlWindow,
              ho8]
            rfl
        have hroom : n - 1 < rest.length := by omega
        have htail : (first :: rest).drop (1 + (n - 1)) = rest[n - 1] :: rest.drop n := by
          rw [show 1 + (n - 1) = n - 1 + 1 by omega, List.drop_succ_cons,
            List.drop_eq_getElem_cons hroom, show n - 1 + 1 = n by omega]
        have hold : (d :: rest)[n]? = some rest[n - 1] := by
          rw [← List.getElem?_eq_getElem hroom, show n = n - 1 + 1 by omega, List.getElem?_cons_succ,
            Nat.add_sub_cancel]
        have hat (b : Byte) (g : Byte → Option Byte) :
            modifyAt (first :: bytes ++ b :: rest.drop n) n g =
              (g b).map fun new => first :: bytes ++ new :: rest.drop n := by
          have hfront : (first :: bytes).length = n := by
            rw [List.length_cons]
            omega
          rw [← hfront]
          exact modifyAt_append _ b _ g
        have hlast := List.getElem?_eq_getElem (show n - 1 < data.length by omega)
        rw [show n + 1 - 2 = n - 1 by omega, hrun, hloop, htail,
          show (first :: rest).take 1 ++ bytes = first :: bytes from rfl]
        simp only [Option.bind_some, Nat.add_sub_cancel, hold, hlast, hat, Option.map_some]
        rfl

end Deparse

/-! ## What lies behind -/

/-- `write` does not look behind the buffer that it is given. -/
def Local (write : List Byte → Option (List Byte)) : Prop :=
  ∀ dst out post : List Byte, write dst = some out → write (dst ++ post) = some (out ++ post)

namespace Local

variable {write next : List Byte → Option (List Byte)}

theorem bind (hwrite : Local write) (hnext : Local next) :
    Local fun dst => (write dst).bind next := by
  intro dst out post hrun
  obtain ⟨mid, hmid, hout⟩ := Option.bind_eq_some_iff.mp hrun
  show (write (dst ++ post)).bind next = _
  rw [hwrite dst mid post hmid, Option.bind_some, hnext mid out post hout]

theorem modify (i : ℕ) (f : Byte → Option Byte) : Local fun dst => modifyAt dst i f := by
  intro dst out post hrun
  dsimp only [modifyAt] at hrun ⊢
  obtain ⟨old, hold, hrun⟩ := Option.bind_eq_some_iff.mp hrun
  obtain ⟨new, hnew, hrun⟩ := Option.bind_eq_some_iff.mp hrun
  obtain rfl : dst.set i new = out := Option.some.inj hrun
  have hi : i < dst.length := (List.getElem?_eq_some_iff.mp hold).1
  rw [List.getElem?_append_left hi, hold]
  simp only [Option.bind_eq_bind, Option.bind_some, hnew, List.set_append, if_pos hi]
  rfl

theorem loop (f : ℕ → Byte → Option Byte) (n i : ℕ) : Local (modifyLoop f n i) := by
  induction n generalizing i with
  | zero =>
    intro dst out post hrun
    obtain rfl := Option.some.inj hrun
    rfl
  | succ n ih => exact (modify i (f i)).bind (ih (i + 1))

/-- One case of the code or the other. -/
theorem ite (c : Prop) [Decidable c] (hwrite : Local write) (hnext : Local next) :
    Local fun dst => if c then write dst else next dst := by
  intro dst out post hrun
  dsimp only at hrun ⊢
  split at hrun
  · next hc => rw [if_pos hc, hwrite dst out post hrun]
  · next hc => rw [if_neg hc, hnext dst out post hrun]

end Local

theorem local_deparseInto (data : List Byte) (bitwidth hdrOffset : ℕ) :
    Local fun dst => deparseInto data bitwidth dst hdrOffset := by
  unfold deparseInto
  refine .ite _ (.loop _ _ _) (.bind (.modify _ _) (.ite _ ?_ (.ite _ ?_ ?_)))
  · exact .bind (.loop _ _ _) (.modify _ _)
  · exact .bind (.loop _ _ _) (.bind (.loop _ _ _) (.modify _ _))
  · exact .bind (.modify _ _) (.ite _ (.modify _ _)
      (.bind (.loop _ _ _) (.bind (.modify _ _) (.modify _ _))))

/-! ## Canonical fields -/

/-- The bits in front of the number are zero. -/
theorem Field.Canonical.padding {f : Field} (hf : f.Canonical) {i : ℕ} (hi : i < fieldPad f.nbits) :
    bitAt f.bytes i = false := by
  have hlen : f.bytes.length = nbitsToNbytes f.nbits := hf.length_bytes
  have hpad := fieldPad_add f.nbits
  rw [← testBit_beNat f.bytes (by omega)]
  refine Nat.testBit_lt_two_pow (hf.beNat_lt.trans_le (Nat.pow_le_pow_right (by norm_num) ?_))
  omega

namespace DataField

/-- The bits of a field. -/
theorem getD_canonicalBits (f : DataField) {b : ℕ} (hb : b < f.nbits) :
    f.canonicalBits.getD b false = bitAt f.bytes (fieldPad f.nbits + b) := by
  simp [canonicalBits, hb]

/-- A canonical field puts its bits and no others. -/
theorem putsBit_canonical {f : DataField} (hf : f.toField.Canonical) {start i : ℕ} :
    f.putsBit start i = true ↔ start ≤ i ∧ f.canonicalBits.getD (i - start) false = true := by
  by_cases hfront : i < start
  · have hnone : f.putsBit start i = false := by
      unfold putsBit
      by_cases hpad : start ≤ i + fieldPad f.nbits
      · rw [hf.padding (show i + fieldPad f.nbits - start < fieldPad f.nbits by omega), Bool.and_false]
      · rw [decide_eq_false (by omega), Bool.false_and]
    simp [hnone, hfront]
  · obtain ⟨b, rfl⟩ := Nat.exists_eq_add_of_le (not_lt.mp hfront)
    rw [Nat.add_sub_cancel_left, and_iff_right (Nat.le_add_right _ _)]
    by_cases hb : b < f.nbits
    · rw [putsBit_own hb, f.getD_canonicalBits hb]
    · rw [List.getD_eq_default _ _ (by rw [length_canonicalBits]; omega)]
      unfold putsBit
      rw [decide_eq_false (by omega), Bool.false_and]

end DataField

/-- Canonical fields put the concatenation of their bits. -/
theorem putsBit_canonical {fs : List DataField} (hfs : ∀ f ∈ fs, f.toField.Canonical) {start i : ℕ} :
    PutsBit fs start i ↔
      start ≤ i ∧ (fs.flatMap (·.canonicalBits)).getD (i - start) false = true := by
  induction fs generalizing start with
  | nil => simp [not_putsBit_nil]
  | cons f fs ih =>
    rw [putsBit_cons, DataField.putsBit_canonical (hfs f (by simp)),
      ih fun g hg => hfs g (by simp [hg]), List.flatMap_cons]
    have hlen := f.length_canonicalBits
    by_cases hown : i - start < f.nbits
    · rw [List.getD_append _ _ _ _ (by omega)]
      have hnot : ¬ start + f.nbits ≤ i := by omega
      simp only [hnot, false_and, or_false]
    · rw [List.getD_append_right _ _ _ _ (by omega), hlen, Nat.sub_sub,
        List.getD_eq_default f.canonicalBits _ (by omega)]
      have hle : start + f.nbits ≤ i ↔ start ≤ i := by omega
      simp [hle]

/-- `bits` were written to `dst` from the bit `off`, and no byte behind them was. -/
structure Written (bits : List Bool) (off : ℕ) (dst out : List Byte) : Prop where
  length_eq : out.length = dst.length
  front : ∀ i < off, bitAt out i = bitAt dst i
  written : ∀ i < bits.length, bitAt out (off + i) = bits.getD i false
  behind : out.drop (nbitsToNbytes (off + bits.length)) =
    dst.drop (nbitsToNbytes (off + bits.length))

/-- One field: the bytes behind it are not looked at. -/
theorem deparseInto_written {f : DataField} (hf : f.toField.Canonical) (hw : 0 < f.nbits)
    {hdrOffset : ℕ} (hoff : hdrOffset < 8) {dst : List Byte}
    (hdst : nbitsToNbytes (hdrOffset + f.nbits) ≤ dst.length) :
    ∃ out, deparseInto f.bytes f.nbits dst hdrOffset = some out ∧
      deparseInto f.bytes f.nbits (dst.take (nbitsToNbytes (hdrOffset + f.nbits))) hdrOffset =
        some (out.take (nbitsToNbytes (hdrOffset + f.nbits))) ∧
      Written f.canonicalBits hdrOffset dst out := by
  have hround : hdrOffset + f.nbits ≤ 8 * nbitsToNbytes (hdrOffset + f.nbits) := by
    unfold nbitsToNbytes
    omega
  have hlen : (dst.take (nbitsToNbytes (hdrOffset + f.nbits))).length =
      nbitsToNbytes (hdrOffset + f.nbits) := by
    rw [List.length_take]
    omega
  obtain ⟨front, hrun, hlenfront, hin, -⟩ :=
    genericDeparse_spec hoff (.inl hw) hf.length_bytes hlen.ge
  rw [← deparseInto_eq hoff hw hf.length_bytes hlen.ge] at hrun
  have hwhole := local_deparseInto f.bytes f.nbits hdrOffset _ _
    (dst.drop (nbitsToNbytes (hdrOffset + f.nbits))) hrun
  rw [List.take_append_drop] at hwhole
  rw [hlen] at hlenfront
  generalize hm : nbitsToNbytes (hdrOffset + f.nbits) = m at *
  refine ⟨front ++ dst.drop m, hwhole, ?_, ?_, fun i hi => ?_, fun i hi => ?_, ?_⟩
  · rw [hrun, List.take_left' hlenfront]
  · rw [List.length_append, List.length_drop]
    omega
  · rw [bitAt_append, if_pos (by omega), hin i (by omega), bitAt_take dst (by omega),
      decide_eq_true hi, Bool.true_and]
    by_cases hpad : hdrOffset ≤ i + fieldPad f.nbits
    · have hclear := hf.padding (show i + fieldPad f.nbits - hdrOffset < fieldPad f.nbits by omega)
      unfold fieldPad at hclear
      rw [hclear, Bool.and_false, Bool.or_false]
    · unfold fieldPad at hpad
      rw [decide_eq_false hpad, Bool.false_and, Bool.or_false]
  · rw [DataField.length_canonicalBits] at hi
    rw [bitAt_append, if_pos (by omega), hin _ (by omega), f.getD_canonicalBits hi,
      decide_eq_false (by omega), decide_eq_true (by omega), Bool.false_and, Bool.false_or,
      Bool.true_and]
    unfold fieldPad
    congr 1
    omega
  · rw [DataField.length_canonicalBits, hm, List.drop_left' hlenfront]

/-- The loop of `Header::deparse`. -/
theorem deparseFields_written {fs : List DataField} {v : DataField}
    (hfs : ∀ f ∈ fs, f.toField.Canonical ∧ 0 < f.nbits) (hvisible : ∀ f ∈ fs, f.hidden = false)
    (hv : v.hidden = true) {hdrOffset : ℕ} (hoff : hdrOffset < 8) {dst : List Byte}
    (hdst : hdrOffset + (fs.map fun f => f.nbits).sum ≤ 8 * dst.length) :
    ∃ out, DataHeader.deparseFields (fs ++ [v]) dst hdrOffset = some out ∧
      Written (fs.flatMap (·.canonicalBits)) hdrOffset dst out := by
  have hzero : ZeroAligned hdrOffset (fs.map fun f => f.nbits) := fun j w hw => by
    obtain ⟨f, hf, rfl⟩ := List.mem_map.mp (List.mem_of_getElem? hw)
    exact .inl (hfs f hf).2
  obtain ⟨out, hrun, hlen, hin, hout⟩ := DataHeader.deparseFields_spec hv hvisible
    (fun f hf => (hfs f hf).1.length_bytes) hoff hzero hdst
  have hput {i : ℕ} : PutsBit fs hdrOffset i ↔ hdrOffset ≤ i ∧
      (fs.flatMap (·.canonicalBits)).getD (i - hdrOffset) false = true :=
    putsBit_canonical fun f hf => (hfs f hf).1
  refine ⟨out, hrun, hlen, fun i hi => ?_, fun i hi => ?_, ?_⟩
  · have hnone : ¬ PutsBit fs hdrOffset i := fun h => by
      have hle := (hput.mp h).1
      omega
    rw [Bool.eq_iff_iff, hin i (by omega)]
    simp [hnone, hi]
  · rw [length_flatMap_canonicalBits] at hi
    rw [Bool.eq_iff_iff, hin _ (by omega), hput]
    simp
  · rw [length_flatMap_canonicalBits]
    refine eq_of_bitAt_eq (by rw [List.length_drop, List.length_drop, hlen]) fun i _ => ?_
    rw [bitAt_drop, bitAt_drop, hout _ (Nat.le_add_right _ _)]

/-- Deparsing writes the field and nothing else, and fields that are deparsed one after another are
written one after another. -/
theorem deparse_frame {fs : List DataField} (hfs : ∀ f ∈ fs, f.toField.Canonical ∧ 0 < f.nbits)
    {hdrOffset : ℕ} (hoff : hdrOffset < 8) (dst : List Byte) :
    (∀ f ∈ fs, nbitsToNbytes (hdrOffset + f.nbits) ≤ dst.length →
      f.deparse dst hdrOffset = deparseInto f.bytes f.nbits dst hdrOffset ∧
      ∃ out, deparseInto f.bytes f.nbits dst hdrOffset = some out ∧
        deparseInto f.bytes f.nbits (dst.take (nbitsToNbytes (hdrOffset + f.nbits))) hdrOffset =
          some (out.take (nbitsToNbytes (hdrOffset + f.nbits))) ∧
        Written f.canonicalBits hdrOffset dst out) ∧
    ∀ v : DataField, v.hidden = true → (∀ f ∈ fs, f.hidden = false) →
      hdrOffset + (fs.map fun f => f.nbits).sum ≤ 8 * dst.length →
      ∃ out, DataHeader.deparseFields (fs ++ [v]) dst hdrOffset = some out ∧
        Written (fs.flatMap (·.canonicalBits)) hdrOffset dst out :=
  ⟨fun f hf hdst =>
    ⟨(deparseInto_eq hoff (hfs f hf).2 (hfs f hf).1.length_bytes hdst).symm,
      deparseInto_written (hfs f hf).1 (hfs f hf).2 hoff hdst⟩,
    fun _ hv hvisible hdst => deparseFields_written hfs hvisible hv hoff hdst⟩

/-- Three bits and ten bits from the bit 2, over what the buffer held. -/
theorem deparse_frame_ten :
    ∃ out, DataHeader.deparseFields ([constantField [0x05] 3, constantField [0x02, 0xa5] 10] ++
        [{ constantField [0x01] 1 with hidden := true }]) [0xee, 0xee, 0xee] 2 = some out ∧
      Written ([constantField [0x05] 3, constantField [0x02, 0xa5] 10].flatMap (·.canonicalBits)) 2
        [0xee, 0xee, 0xee] out := by
  have hfs : ∀ f ∈ [constantField [0x05] 3, constantField [0x02, 0xa5] 10],
      f.toField.Canonical ∧ 0 < f.nbits := by
    intro f hf
    rcases List.mem_pair.mp hf with rfl | rfl
    · exact ⟨⟨rfl, by decide⟩, by decide⟩
    · exact ⟨⟨rfl, by decide⟩, by decide⟩
  exact (deparse_frame hfs (show 2 < 8 by norm_num) [0xee, 0xee, 0xee]).2 _ rfl (by decide) (by decide)

end Bm
