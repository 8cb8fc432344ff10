/-
# Moving bit fields

`generic_extract` and `generic_deparse` (`extract.h`) move a bit field between
a byte buffer, where it starts `bit_offset` bits into the first byte, and the
bytes of a field, where it is aligned to the right.  An access outside of the
buffers gives `none`.

* `genericExtract_spec`: the field is read right; the padding in front of it is
  zero, except for a field of one byte that crosses a byte boundary
  (`StrayPadding`), which keeps the bits that precede it in the buffer;
* `genericDeparse_spec`: the field is written right; the padding is OR-ed to the
  bits that precede the field in its first byte.
-/
import Bmv2.Lib.BitFields
import Bmv2.Phv

namespace Bm

/-- The loop `dst[i] = (data[i] << o) | (data[i + 1] >> (8 - o))` for `n` bytes. -/
def shlLoop (o : ℕ) : ℕ → List Byte → Option (List Byte)
  | 0, _ => some []
  | n + 1, a :: b :: data => (shlLoop o n (b :: data)).map (shlWindow o a b :: ·)
  | _ + 1, _ => none

/-- `generic_extract`: the bytes of a field of `bitwidth` bits. -/
def genericExtract (data : List Byte) (bitOffset bitwidth : ℕ) : Option (List Byte) :=
  let nbytes := nbitsToNbytes bitwidth
  if bitOffset = 0 ∧ bitwidth % 8 = 0 then
    if nbytes ≤ data.length then some (data.take nbytes) else none
  else if nbytes = 0 then none
  else
    let dstOffset := nbytes * 8 - bitwidth
    if bitOffset = dstOffset then
      if nbytes ≤ data.length then
        some ((data.take nbytes).modify 0 (· &&& (0xff#8 >>> dstOffset)))
      else none
    else if dstOffset < bitOffset then do
      -- shift left
      let offset := bitOffset - dstOffset
      let dst ← shlLoop offset (nbytes - 1) data
      let dst := dst.modify 0 (· &&& (0xff#8 >>> dstOffset))
      -- the last byte is written after the mask
      let last : Byte ← data[nbytes - 1]?
      if nbytes * 8 < bitOffset + bitwidth then
        let next : Byte ← data[nbytes]?
        pure (dst ++ [shlWindow offset last next])
      else pure (dst ++ [last <<< offset])
    else do
      -- shift right
      let offset := dstOffset - bitOffset
      let first : Byte ← data[0]?
      let rest ← shlLoop (8 - offset) (nbytes - 1) data
      pure (((first >>> offset) &&& (0xff#8 >>> dstOffset)) :: rest)

/-- `generic_deparse`: the buffer with the field of bytes `data` written into it. -/
def genericDeparse (data : List Byte) (bitwidth : ℕ) (dst : List Byte) (hdrOffset : ℕ) :
    Option (List Byte) :=
  let nbytes := nbitsToNbytes bitwidth
  if hdrOffset = 0 ∧ bitwidth % 8 = 0 then
    if nbytes ≤ data.length ∧ nbytes ≤ dst.length then some (data.take nbytes ++ dst.drop nbytes)
    else none
  else
    let fieldOffset := nbytes * 8 - bitwidth
    let hdrBytes := nbitsToNbytes (hdrOffset + bitwidth)
    if dst.length < hdrBytes then none
    else do
      let first : Byte ← dst[0]?
      let first := first &&& ~~~(0xff#8 >>> hdrOffset)
      let head : Byte ← data[0]?
      if fieldOffset = hdrOffset then
        if hdrBytes ≤ data.length then
          pure ((first ||| head) :: (data.take hdrBytes).drop 1 ++ dst.drop hdrBytes)
        else none
      else if hdrOffset < fieldOffset then
        -- shift left
        let offset := fieldOffset - hdrOffset
        let bytes ← shlLoop offset (hdrBytes - 1) data
        let last : Byte ← data[hdrBytes - 1]?
        pure ((bytes ++ [last <<< offset]).modify 0 (first ||| ·) ++ dst.drop hdrBytes)
      else
        -- shift right
        let offset := hdrOffset - fieldOffset
        let first := first ||| (head >>> offset)
        if nbytes = 1 then pure (first :: (head <<< (8 - offset)) :: dst.drop 2)
        else
          let middle ← shlLoop (8 - offset) (hdrBytes - 2) data
          let tailOffset := hdrBytes * 8 - (hdrOffset + bitwidth)
          let tail : Byte ← dst[hdrBytes - 1]?
          let tail := tail &&& BitVec.ofNat 8 (2 ^ tailOffset - 1)
          let last : Byte ← data[hdrBytes - 2]?
          pure (first :: middle ++ (tail ||| (last <<< (8 - offset))) :: dst.drop hdrBytes)

/-- The fields whose padding `generic_extract` does not clear: less than a byte wide and across
a byte boundary. -/
def StrayPadding (bitOffset bitwidth : ℕ) : Prop := bitwidth < 8 ∧ 8 < bitOffset + bitwidth

instance (bitOffset bitwidth : ℕ) : Decidable (StrayPadding bitOffset bitwidth) :=
  inferInstanceAs (Decidable (_ ∧ _))

/-! ## Reading the windows of a buffer -/

theorem shlLoop_eq_some {o n : ℕ} {data : List Byte} (h : n < data.length ∨ n = 0) :
    ∃ bytes, shlLoop o n data = some bytes ∧ bytes.length = n ∧
      ∀ i < n, bytes[i]? = some (shlWindow o (data[i]?.getD 0) (data[i + 1]?.getD 0)) := by
  induction n generalizing data with
  | zero => exact ⟨[], rfl, rfl, by simp⟩
  | succ n ih =>
    match data with
    | [] => simp at h
    | [a] => simp at h
    | a :: b :: data =>
      have hlen : n < (b :: data).length ∨ n = 0 := by
        simp only [List.length_cons] at h ⊢
        omega
      obtain ⟨bytes, hrun, hlen, hbytes⟩ := ih hlen
      refine ⟨shlWindow o a b :: bytes, by rw [shlLoop, hrun]; rfl, by simp [hlen], fun i hi => ?_⟩
      cases i with
      | zero => simp
      | succ i => simpa using hbytes i (by omega)

/-- The bits that the loop writes. -/
theorem bitAt_shlLoop {o n : ℕ} {data bytes : List Byte} (ho : o < 8)
    (hbytes : ∀ i < n, bytes[i]? = some (shlWindow o (data[i]?.getD 0) (data[i + 1]?.getD 0)))
    {i : ℕ} (hi : i < 8 * n) : bitAt bytes i = bitAt data (i + o) := by
  rw [bitAt, hbytes (i / 8) (by omega), Option.getD_some,
    getMsbD_shlWindow_at data (i / 8) ho (Nat.mod_lt i (by norm_num))]
  congr 1
  omega

theorem shlLoop_eq_none {o n : ℕ} {data : List Byte} (h : data.length ≤ n) (hn : 0 < n) :
    shlLoop o n data = none := by
  induction n generalizing data with
  | zero => simp at hn
  | succ n ih =>
    match data with
    | [] => rfl
    | [a] => rfl
    | a :: b :: data =>
      have hrest : shlLoop o n (b :: data) = none := by
        simp at h
        exact ih (by simpa using h) (by omega)
      rw [shlLoop, hrest]
      rfl

/-! ## `generic_extract` -/

variable {data : List Byte} {bitOffset bitwidth : ℕ}

/-- A byte string with the first bits of its first byte cleared. -/
theorem bitAt_modify_lowMask (bs : List Byte) {n : ℕ} (hn : n ≤ 8) (i : ℕ) :
    bitAt (bs.modify 0 (· &&& (0xff#8 >>> n))) i = (decide (n ≤ i) && bitAt bs i) := by
  cases bs with
  | nil => simp [bitAt]
  | cons b bs =>
    rw [List.modify_zero_cons, bitAt_cons, bitAt_cons]
    by_cases hi : i < 8
    · rw [if_pos hi, if_pos hi, getMsbD_and_lowMask b n hi]
    · rw [if_neg hi, if_neg hi]
      simp [show n ≤ i by omega]

/-- What `generic_extract` reads: the field, and in front of it zeros or stray bits. -/
theorem genericExtract_spec (hoff : bitOffset < 8) (hw : 0 < bitwidth ∨ bitOffset = 0)
    (hlen : nbitsToNbytes (bitOffset + bitwidth) ≤ data.length) :
    ∃ dst, genericExtract data bitOffset bitwidth = some dst ∧
      dst.length = nbitsToNbytes bitwidth ∧
      ∀ i < 8 * nbitsToNbytes bitwidth, bitAt dst i =
        (decide (8 * nbitsToNbytes bitwidth - bitwidth ≤ i ∨ StrayPadding bitOffset bitwidth) &&
          bitAt data (bitOffset + i - (8 * nbitsToNbytes bitwidth - bitwidth))) := by
  unfold genericExtract
  unfold nbitsToNbytes StrayPadding at *
  generalize hn : (bitwidth + 7) / 8 = n at *
  dsimp only
  by_cases haligned : bitOffset = 0 ∧ bitwidth % 8 = 0
  · -- whole bytes
    rw [if_pos haligned, if_pos (by omega)]
    refine ⟨_, rfl, by rw [List.length_take]; omega, fun i hi => ?_⟩
    rw [bitAt_take data hi, show bitOffset + i - (8 * n - bitwidth) = i by omega]
    simp [show 8 * n - bitwidth ≤ i by omega]
  · rw [if_neg haligned, if_neg (by omega)]
    by_cases hsame : bitOffset = n * 8 - bitwidth
    · rw [if_pos hsame, if_pos (by omega)]
      refine ⟨_, rfl, by rw [List.length_modify, List.length_take]; omega, fun i hi => ?_⟩
      rw [bitAt_modify_lowMask _ (by omega), bitAt_take data hi,
        show bitOffset + i - (8 * n - bitwidth) = i by omega]
      congr 2
      rw [eq_iff_iff]
      omega
    · rw [if_neg hsame]
      by_cases hleft : n * 8 - bitwidth < bitOffset
      · rw [if_pos hleft]
        have hinside : n - 1 < data.length ∨ n - 1 = 0 := by omega
        obtain ⟨bytes, hrun, hblen, hbytes⟩ :=
          shlLoop_eq_some (o := bitOffset - (n * 8 - bitwidth)) hinside
        obtain ⟨last, hlast⟩ : ∃ last, data[n - 1]? = some last :=
          ⟨_, List.getElem?_eq_getElem (show n - 1 < data.length by omega)⟩
        obtain ⟨next, hnext⟩ : ∃ next, data[n]? = some next :=
          ⟨_, List.getElem?_eq_getElem (show n < data.length by omega)⟩
        rw [hrun, hlast]
        simp only [Option.bind_eq_bind, Option.bind_some,
          if_pos (show n * 8 < bitOffset + bitwidth by omega), hnext]
        refine ⟨_, rfl, by simp [hblen]; omega, fun i hi => ?_⟩
        rw [bitAt_append, List.length_modify, hblen]
        by_cases hi' : i < 8 * (n - 1)
        · rw [if_pos hi', bitAt_modify_lowMask _ (by omega), bitAt_shlLoop (by omega) hbytes hi',
            show bitOffset + i - (8 * n - bitwidth) = i + (bitOffset - (n * 8 - bitwidth)) by omega]
          congr 2
          rw [eq_iff_iff]
          omega
        · -- the last byte, which for a field of one byte is the first as well
          have hwin := getMsbD_shlWindow_at data (n - 1)
            (show bitOffset - (n * 8 - bitwidth) < 8 by omega) (show i - 8 * (n - 1) < 8 by omega)
          rw [hlast, show n - 1 + 1 = n by omega, hnext, Option.getD_some, Option.getD_some] at hwin
          rw [if_neg hi', bitAt_cons, if_pos (by omega), hwin,
            show 8 * (n - 1) + (i - 8 * (n - 1)) + (bitOffset - (n * 8 - bitwidth)) =
              bitOffset + i - (8 * n - bitwidth) by omega,
            decide_eq_true (by omega), Bool.true_and]
      · rw [if_neg hleft]
        have hinside : n - 1 < data.length ∨ n - 1 = 0 := by omega
        obtain ⟨bytes, hrun, hblen, hbytes⟩ :=
          shlLoop_eq_some (o := 8 - (n * 8 - bitwidth - bitOffset)) hinside
        obtain ⟨first, hfirst⟩ : ∃ first, data[0]? = some first :=
          ⟨_, List.getElem?_eq_getElem (show 0 < data.length by omega)⟩
        rw [hfirst, hrun]
        refine ⟨_, rfl, by simp [hblen]; omega, fun i hi => ?_⟩
        rw [bitAt_cons]
        by_cases hi' : i < 8
        · rw [if_pos hi', getMsbD_and_lowMask _ _ hi', BitVec.getMsbD_ushiftRight]
          by_cases hpad : 8 * n - bitwidth ≤ i
          · have hbit := bitAt_eq_getMsbD data 0
              (show i - (n * 8 - bitwidth - bitOffset) < 8 by omega)
            rw [hfirst, Option.getD_some] at hbit
            rw [show bitOffset + i - (8 * n - bitwidth) =
              8 * 0 + (i - (n * 8 - bitwidth - bitOffset)) by omega, hbit]
            simp [hi', hpad, show n * 8 - bitwidth ≤ i by omega,
              show ¬ i < n * 8 - bitwidth - bitOffset by omega]
          · simp [hpad, show ¬ n * 8 - bitwidth ≤ i by omega]
            omega
        · rw [if_neg hi', bitAt_shlLoop (by omega) hbytes (by omega),
            show i - 8 + (8 - (n * 8 - bitwidth - bitOffset)) =
              bitOffset + i - (8 * n - bitwidth) by omega,
            decide_eq_true (by omega), Bool.true_and]

/-- `generic_extract` reads beyond the end when the field does. -/
theorem genericExtract_eq_none (hoff : bitOffset < 8)
    (hlen : data.length < nbitsToNbytes (bitOffset + bitwidth)) :
    genericExtract data bitOffset bitwidth = none := by
  unfold genericExtract
  unfold nbitsToNbytes at *
  generalize hn : (bitwidth + 7) / 8 = n at *
  dsimp only
  by_cases haligned : bitOffset = 0 ∧ bitwidth % 8 = 0
  · rw [if_pos haligned, if_neg (by omega)]
  · rw [if_neg haligned]
    split
    · rfl
    by_cases hsame : bitOffset = n * 8 - bitwidth
    · rw [if_pos hsame, if_neg (by omega)]
    · rw [if_neg hsame]
      by_cases hleft : n * 8 - bitwidth < bitOffset
      · rw [if_pos hleft]
        cases shlLoop (bitOffset - (n * 8 - bitwidth)) (n - 1) data with
        | none => rfl
        | some bytes =>
          cases data[n - 1]? with
          | none => rfl
          | some last =>
            simp only [Option.bind_eq_bind, Option.bind_some,
              if_pos (show n * 8 < bitOffset + bitwidth by omega),
              List.getElem?_eq_none (show data.length ≤ n by omega)]
            rfl
      · rw [if_neg hleft]
        cases data with
        | nil => rfl
        | cons first data =>
          rw [shlLoop_eq_none (by omega) (by simp at hlen; omega)]
          rfl

/-! ## `generic_deparse` -/

variable {dst : List Byte} {hdrOffset : ℕ}

/-- A byte of the buffer with the bits of the field cleared, OR-ed with another byte. -/
theorem getMsbD_highMask_or (a b : Byte) (n : ℕ) {i : ℕ} (hi : i < 8) :
    ((a &&& ~~~(0xff#8 >>> n)) ||| b).getMsbD i =
      ((decide (i < n) && a.getMsbD i) || b.getMsbD i) := by
  rw [BitVec.getMsbD_or, getMsbD_and_highMask a n hi]

theorem bitAt_modify_or (b : Byte) {bs : List Byte} (hne : bs ≠ []) (i : ℕ) :
    bitAt (bs.modify 0 (b ||| ·)) i = ((decide (i < 8) && b.getMsbD i) || bitAt bs i) := by
  cases bs with
  | nil => exact absurd rfl hne
  | cons c bs =>
    rw [List.modify_zero_cons, bitAt_cons, bitAt_cons]
    by_cases hi : i < 8
    · simp [hi]
    · simp [hi]

/-- The mask `(1 << t) - 1`. -/
theorem ofNat_lowMask {t : ℕ} (ht : t ≤ 8) :
    BitVec.ofNat 8 (2 ^ t - 1) = 0xff#8 >>> (8 - t) := by
  have hall : ∀ t ≤ 8, BitVec.ofNat 8 (2 ^ t - 1) = 0xff#8 >>> (8 - t) := by decide
  exact hall t ht

/-- A buffer whose first `m` bytes are replaced. -/
theorem replace_front {bs : List Byte} {m : ℕ} (hbs : bs.length = m) (hm : m ≤ dst.length) :
    (bs ++ dst.drop m).length = dst.length ∧
      (∀ i < 8 * m, bitAt (bs ++ dst.drop m) i = bitAt bs i) ∧
      ∀ i, 8 * m ≤ i → bitAt (bs ++ dst.drop m) i = bitAt dst i := by
  refine ⟨by simp [hbs]; omega, fun i hi => ?_, fun i hi => ?_⟩
  · rw [bitAt_append, if_pos (hbs ▸ hi)]
  · rw [bitAt_append, if_neg (by omega), bitAt_drop]
    congr 1
    omega

/-- What `generic_deparse` writes: the field, its padding OR-ed to the bits in front of it in the
first byte, no bit behind it in the last byte, and nothing beyond that byte. -/
theorem genericDeparse_spec (hoff : hdrOffset < 8) (hw : 0 < bitwidth ∨ hdrOffset = 0)
    (hdata : data.length = nbitsToNbytes bitwidth)
    (hdst : nbitsToNbytes (hdrOffset + bitwidth) ≤ dst.length) :
    ∃ dst', genericDeparse data bitwidth dst hdrOffset = some dst' ∧ dst'.length = dst.length ∧
      (∀ i < hdrOffset + bitwidth, bitAt dst' i = ((decide (i < hdrOffset) && bitAt dst i) ||
        (decide (hdrOffset ≤ i + (8 * nbitsToNbytes bitwidth - bitwidth)) &&
          bitAt data (i + (8 * nbitsToNbytes bitwidth - bitwidth) - hdrOffset)))) ∧
      (∀ i, hdrOffset + bitwidth ≤ i → i < 8 * nbitsToNbytes (hdrOffset + bitwidth) →
        bitAt dst' i = true → bitAt dst i = true) ∧
      ∀ i, 8 * nbitsToNbytes (hdrOffset + bitwidth) ≤ i → bitAt dst' i = bitAt dst i := by
  unfold genericDeparse
  unfold nbitsToNbytes at *
  generalize hn : (bitwidth + 7) / 8 = n at *
  generalize hm : (hdrOffset + bitwidth + 7) / 8 = m at *
  dsimp only
  by_cases haligned : hdrOffset = 0 ∧ bitwidth % 8 = 0
  · rw [if_pos haligned, if_pos (by omega)]
    obtain rfl : m = n := by omega
    obtain ⟨hlen, hin, hout⟩ := replace_front (show (data.take m).length = m by simp; omega) hdst
    refine ⟨_, rfl, hlen, fun i hi => ?_, fun i hi hi' => absurd hi' (by omega), hout⟩
    rw [hin i (by omega), bitAt_take data (by omega),
      show i + (8 * m - bitwidth) - hdrOffset = i by omega]
    simp [haligned.1]
  · obtain ⟨first, hfirst⟩ : ∃ first, dst[0]? = some first :=
      ⟨_, List.getElem?_eq_getElem (show 0 < dst.length by omega)⟩
    obtain ⟨head, hhead⟩ : ∃ head, data[0]? = some head :=
      ⟨_, List.getElem?_eq_getElem (show 0 < data.length by omega)⟩
    have hfirstBit {i : ℕ} (hi : i < 8) : first.getMsbD i = bitAt dst i := by
      have hbit := bitAt_eq_getMsbD dst 0 hi
      rw [hfirst, Option.getD_some] at hbit
      simpa using hbit.symm
    have hheadBit {i : ℕ} (hi : i < 8) : head.getMsbD i = bitAt data i := by
      have hbit := bitAt_eq_getMsbD data 0 hi
      rw [hhead, Option.getD_some] at hbit
      simpa using hbit.symm
    rw [if_neg haligned, if_neg (by omega), hfirst, hhead]
    simp only [Option.bind_eq_bind, Option.bind_some]
    by_cases hsame : n * 8 - bitwidth = hdrOffset
    · -- the field starts where its first byte has it
      rw [if_pos hsame, if_pos (by omega)]
      obtain ⟨hlen, hin, hout⟩ := replace_front (show (((first &&& ~~~(0xff#8 >>> hdrOffset)) |||
        head) :: (data.take m).drop 1).length = m by simp; omega) hdst
      refine ⟨_, rfl, hlen, fun i hi => ?_, fun i hi hi' => absurd hi' (by omega), hout⟩
      rw [hin i (by omega), bitAt_cons, show i + (8 * n - bitwidth) - hdrOffset = i by omega,
        decide_eq_true (show hdrOffset ≤ i + (8 * n - bitwidth) by omega), Bool.true_and]
      by_cases hi' : i < 8
      · rw [if_pos hi', getMsbD_highMask_or _ _ _ hi', hfirstBit hi', hheadBit hi']
      · rw [if_neg hi', bitAt_drop, bitAt_take data (by omega),
          decide_eq_false (show ¬ i < hdrOffset by omega), Bool.false_and, Bool.false_or]
        congr 1
        omega
    · rw [if_neg hsame]
      by_cases hleft : hdrOffset < n * 8 - bitwidth
      · -- shift left
        rw [if_pos hleft]
        have hinside : m - 1 < data.length ∨ m - 1 = 0 := by omega
        obtain ⟨bytes, hrun, hblen, hbytes⟩ :=
          shlLoop_eq_some (o := n * 8 - bitwidth - hdrOffset) hinside
        obtain ⟨last, hlast⟩ : ∃ last, data[m - 1]? = some last :=
          ⟨_, List.getElem?_eq_getElem (show m - 1 < data.length by omega)⟩
        rw [hrun, hlast]
        have hshifted {i : ℕ} (hi : i < 8 * m) :
            bitAt (bytes ++ [last <<< (n * 8 - bitwidth - hdrOffset)]) i =
              bitAt data (i + (n * 8 - bitwidth - hdrOffset)) := by
          rw [bitAt_append, hblen]
          by_cases hi' : i < 8 * (m - 1)
          · rw [if_pos hi', bitAt_shlLoop (by omega) hbytes hi']
          · rw [if_neg hi', bitAt_cons, if_pos (by omega), BitVec.getMsbD_shiftLeft]
            by_cases hend : i - 8 * (m - 1) + (n * 8 - bitwidth - hdrOffset) < 8
            · have hbit := bitAt_eq_getMsbD data (m - 1) hend
              rw [hlast, Option.getD_some] at hbit
              rw [← hbit]
              congr 1
              omega
            · rw [BitVec.getMsbD_of_ge _ _ (by omega), bitAt_of_le (by omega)]
        obtain ⟨hlen, hin, hout⟩ := replace_front
          (show ((bytes ++ [last <<< (n * 8 - bitwidth - hdrOffset)]).modify 0
            ((first &&& ~~~(0xff#8 >>> hdrOffset)) ||| ·)).length = m by simp [hblen]; omega) hdst
        refine ⟨_, rfl, hlen, fun i hi => ?_, fun i hi hi' hbit => ?_, hout⟩
        · rw [hin i (by omega), bitAt_modify_or _ (by simp), hshifted (by omega),
            show i + (8 * n - bitwidth) - hdrOffset = i + (n * 8 - bitwidth - hdrOffset) by omega,
            decide_eq_true (show hdrOffset ≤ i + (8 * n - bitwidth) by omega), Bool.true_and]
          by_cases hi' : i < 8
          · rw [decide_eq_true hi', Bool.true_and, getMsbD_and_highMask _ _ hi', hfirstBit hi']
          · simp [hi', show ¬ i < hdrOffset by omega]
        · rw [hin i hi', bitAt_modify_or _ (by simp), hshifted hi',
            bitAt_of_le (show 8 * data.length ≤ _ by omega), Bool.or_false, Bool.and_eq_true] at hbit
          rw [getMsbD_and_highMask _ _ (of_decide_eq_true hbit.1),
            decide_eq_false (show ¬ i < hdrOffset by omega), Bool.false_and] at hbit
          exact absurd hbit.2 Bool.false_ne_true
      · -- shift right
        rw [if_neg hleft]
        have hheadShift {i : ℕ} (hi : i < 8) :
            (head >>> (hdrOffset - (n * 8 - bitwidth))).getMsbD i =
              (decide (hdrOffset ≤ i + (8 * n - bitwidth)) &&
                bitAt data (i + (8 * n - bitwidth) - hdrOffset)) := by
          rw [BitVec.getMsbD_ushiftRight, decide_eq_true hi, Bool.true_and]
          by_cases ho : hdrOffset ≤ i + (8 * n - bitwidth)
          · rw [decide_eq_true ho, decide_eq_false (show ¬ i < hdrOffset - (n * 8 - bitwidth) by omega),
              Bool.not_false, hheadBit (by omega)]
            congr 2
            omega
          · simp [ho, show i < hdrOffset - (n * 8 - bitwidth) by omega]
        by_cases hone : n = 1
        · -- the one byte of the field is split over two
          rw [if_pos hone]
          obtain rfl : m = 2 := by omega
          obtain ⟨hlen, hin, hout⟩ := replace_front (show [(first &&& ~~~(0xff#8 >>> hdrOffset)) |||
            (head >>> (hdrOffset - (n * 8 - bitwidth))),
            head <<< (8 - (hdrOffset - (n * 8 - bitwidth)))].length = 2 from rfl) hdst
          have hbits {i : ℕ} (hi : i < 16) := hin i hi
          simp only [List.cons_append, List.nil_append] at hbits
          refine ⟨_, rfl, hlen, fun i hi => ?_, fun i hi hi' hbit => ?_, hout⟩
          · rw [hbits (by omega), bitAt_cons]
            by_cases hi' : i < 8
            · rw [if_pos hi', getMsbD_highMask_or _ _ _ hi', hfirstBit hi', hheadShift hi']
            · rw [if_neg hi', bitAt_cons, if_pos (by omega), BitVec.getMsbD_shiftLeft,
                hheadBit (by omega), decide_eq_false (show ¬ i < hdrOffset by omega),
                decide_eq_true (show hdrOffset ≤ i + (8 * n - bitwidth) by omega), Bool.false_and,
                Bool.false_or, Bool.true_and]
              congr 1
              omega
          · rw [hbits hi', bitAt_cons, if_neg (by omega), bitAt_cons, if_pos (by omega),
              BitVec.getMsbD_shiftLeft, BitVec.getMsbD_of_ge _ _ (by omega)] at hbit
            exact absurd hbit Bool.false_ne_true
        · rw [if_neg hone]
          have hinside : m - 2 < data.length ∨ m - 2 = 0 := by omega
          obtain ⟨bytes, hrun, hblen, hbytes⟩ :=
            shlLoop_eq_some (o := 8 - (hdrOffset - (n * 8 - bitwidth))) hinside
          obtain ⟨tail, htail⟩ : ∃ tail, dst[m - 1]? = some tail :=
            ⟨_, List.getElem?_eq_getElem (show m - 1 < dst.length by omega)⟩
          obtain ⟨last, hlast⟩ : ∃ last, data[m - 2]? = some last :=
            ⟨_, List.getElem?_eq_getElem (show m - 2 < data.length by omega)⟩
          rw [hrun, htail, hlast]
          simp only [Option.bind_some]
          rw [ofNat_lowMask (show m * 8 - (hdrOffset + bitwidth) ≤ 8 by omega)]
          generalize hend : (tail &&& (0xff#8 >>> (8 - (m * 8 - (hdrOffset + bitwidth))))) |||
            (last <<< (8 - (hdrOffset - (n * 8 - bitwidth)))) = lastByte
          -- the bits of the last byte that belong to the field
          have hlastBit {i : ℕ} (hi : 8 * (m - 1) ≤ i) (hi' : i < hdrOffset + bitwidth) :
              lastByte.getMsbD (i - 8 * (m - 1)) =
                bitAt data (i + (8 * n - bitwidth) - hdrOffset) := by
            have hlow : i - 8 * (m - 1) + (8 - (hdrOffset - (n * 8 - bitwidth))) < 8 := by omega
            have hbit := bitAt_eq_getMsbD data (m - 2) hlow
            rw [hlast, Option.getD_some] at hbit
            rw [← hend, BitVec.getMsbD_or, getMsbD_and_lowMask _ _ (by omega),
              BitVec.getMsbD_shiftLeft, ← hbit, decide_eq_false (by omega), Bool.false_and,
              Bool.false_or]
            congr 1
            omega
          obtain ⟨hlen, hin, hout⟩ := replace_front (show (((first &&& ~~~(0xff#8 >>> hdrOffset)) |||
            (head >>> (hdrOffset - (n * 8 - bitwidth)))) :: (bytes ++ [lastByte])).length = m by
              simp [hblen]; omega) hdst
          refine ⟨_, rfl, ?_, fun i hi => ?_, fun i hi hi' hbit => ?_, fun i hi => ?_⟩
          · simpa using hlen
          · have hin' := hin i (by omega)
            simp only [List.cons_append, List.append_assoc, List.nil_append] at hin' ⊢
            rw [hin', bitAt_cons]
            by_cases hi' : i < 8
            · rw [if_pos hi', getMsbD_highMask_or _ _ _ hi', hfirstBit hi', hheadShift hi']
            · rw [if_neg hi', bitAt_append, hblen,
                decide_eq_false (show ¬ i < hdrOffset by omega),
                decide_eq_true (show hdrOffset ≤ i + (8 * n - bitwidth) by omega), Bool.false_and,
                Bool.false_or, Bool.true_and]
              by_cases hmid : i - 8 < 8 * (m - 2)
              · rw [if_pos hmid, bitAt_shlLoop (by omega) hbytes hmid]
                congr 1
                omega
              · rw [if_neg hmid, bitAt_cons, if_pos (by omega), ← hlastBit (by omega) hi]
                congr 1
                omega
          · have hin' := hin i hi'
            simp only [List.cons_append, List.append_assoc, List.nil_append] at hin' hbit
            rw [hin', bitAt_cons, if_neg (by omega), bitAt_append, hblen, if_neg (by omega), bitAt_cons,
              if_pos (by omega), ← hend, BitVec.getMsbD_or, getMsbD_and_lowMask _ _ (by omega),
              BitVec.getMsbD_shiftLeft, BitVec.getMsbD_of_ge last _ (by omega), Bool.or_false,
              Bool.and_eq_true] at hbit
            have hdstBit := bitAt_eq_getMsbD dst (m - 1) (show i - 8 - 8 * (m - 2) < 8 by omega)
            rw [htail, Option.getD_some, hbit.2,
              show 8 * (m - 1) + (i - 8 - 8 * (m - 2)) = i by omega] at hdstBit
            exact hdstBit
          · have hout' := hout i hi
            simpa using hout'

/-! ## Fields one after another -/

/-- The padding in front of a field in its bytes, in bits. -/
def fieldPad (w : ℕ) : ℕ := 8 * nbitsToNbytes w - w

/-- The place where the field `j` starts, in bits. -/
def fieldStart (widths : List ℕ) (j : ℕ) : ℕ := (widths.take j).sum

/-- Fields of no width start at a byte. -/
def ZeroAligned (start : ℕ) (widths : List ℕ) : Prop :=
  ∀ j w : ℕ, widths[j]? = some w → 0 < w ∨ (start + fieldStart widths j) % 8 = 0

/-- Bit `i` of the bytes of a field of width `w` that is read from the bit `start` of `data`. -/
def readBit (data : List Byte) (start w i : ℕ) : Bool :=
  decide (fieldPad w ≤ i ∨ StrayPadding (start % 8) w) && bitAt data (start + i - fieldPad w)

theorem fieldStart_cons (w : ℕ) (widths : List ℕ) (j : ℕ) :
    fieldStart (w :: widths) (j + 1) = w + fieldStart widths j := by
  simp [fieldStart]

@[simp] theorem fieldStart_zero (widths : List ℕ) : fieldStart widths 0 = 0 := by
  simp [fieldStart]

theorem fieldPad_add (w : ℕ) : fieldPad w + w = 8 * nbitsToNbytes w := by
  unfold fieldPad nbitsToNbytes
  omega

/-- Every place belongs to a field. -/
theorem exists_field {widths : List ℕ} {p : ℕ} (hp : p < widths.sum) :
    ∃ j w b : ℕ, widths[j]? = some w ∧ b < w ∧ p = fieldStart widths j + b := by
  induction widths generalizing p with
  | nil => simp at hp
  | cons w widths ih =>
    rw [List.sum_cons] at hp
    by_cases hw : p < w
    · exact ⟨0, w, p, rfl, hw, by simp⟩
    · obtain ⟨j, w', b, hj, hb, hpj⟩ := ih (show p - w < widths.sum by omega)
      refine ⟨j + 1, w', b, by simpa using hj, hb, ?_⟩
      rw [fieldStart_cons]
      omega

/-- A field ends where the next one starts, or before. -/
theorem fieldStart_add_le {widths : List ℕ} {i j w : ℕ} (hi : widths[i]? = some w) (hij : i < j) :
    fieldStart widths i + w ≤ fieldStart widths j := by
  induction widths generalizing i j with
  | nil => simp at hi
  | cons w₀ widths ih =>
    obtain ⟨j, rfl⟩ : ∃ k, j = k + 1 := ⟨j - 1, by omega⟩
    rw [fieldStart_cons]
    cases i with
    | zero =>
      obtain rfl : w₀ = w := by simpa using hi
      simp
    | succ i =>
      have hle := ih (j := j) (by simpa using hi) (by omega)
      rw [fieldStart_cons]
      omega

theorem fieldStart_add_le_sum {widths : List ℕ} {i w : ℕ} (hi : widths[i]? = some w) :
    fieldStart widths i + w ≤ widths.sum := by
  have hlt : i < widths.length := (List.getElem?_eq_some_iff.mp hi).1
  have hle := fieldStart_add_le hi hlt
  rwa [fieldStart, fieldStart, List.take_length, ← fieldStart] at hle

/-- A place belongs to one field only. -/
theorem field_unique {widths : List ℕ} {i j w w' p : ℕ} (hi : widths[i]? = some w)
    (hj : widths[j]? = some w') (hip : fieldStart widths i ≤ p) (hip' : p < fieldStart widths i + w)
    (hjp : fieldStart widths j ≤ p) (hjp' : p < fieldStart widths j + w') : i = j := by
  rcases lt_trichotomy i j with hlt | heq | hlt
  · have := fieldStart_add_le hi hlt
    omega
  · exact heq
  · have := fieldStart_add_le hj hlt
    omega

theorem zeroAligned_cons {start w : ℕ} {widths : List ℕ} :
    ZeroAligned start (w :: widths) ↔ (0 < w ∨ start % 8 = 0) ∧ ZeroAligned (start + w) widths := by
  constructor
  · intro h
    refine ⟨by simpa using h 0 w rfl, fun j w' hj => ?_⟩
    have hj' := h (j + 1) w' (by simpa using hj)
    rwa [fieldStart_cons, ← Nat.add_assoc] at hj'
  · rintro ⟨hw, hwidths⟩ j w' hj
    cases j with
    | zero =>
      obtain rfl : w = w' := by simpa using hj
      simpa using hw
    | succ j =>
      have hj' := hwidths j w' (by simpa using hj)
      rwa [fieldStart_cons, ← Nat.add_assoc]

/-- Only the alignment within a byte matters. -/
theorem zeroAligned_congr {start start' : ℕ} {widths : List ℕ} (h : start % 8 = start' % 8) :
    ZeroAligned start widths ↔ ZeroAligned start' widths := by
  unfold ZeroAligned
  refine forall_congr' fun j => forall_congr' fun w => forall_congr' fun _ => ?_
  have hiff : (start + fieldStart widths j) % 8 = 0 ↔ (start' + fieldStart widths j) % 8 = 0 := by
    omega
  rw [hiff]

theorem readBit_drop (data : List Byte) (n start w i : ℕ) :
    readBit (data.drop n) start w i = readBit data (8 * n + start) w i := by
  unfold readBit
  rw [show (8 * n + start) % 8 = start % 8 by omega]
  by_cases hread : fieldPad w ≤ i ∨ StrayPadding (start % 8) w
  · rw [bitAt_drop]
    congr 2
    unfold StrayPadding fieldPad nbitsToNbytes at *
    omega
  · rw [decide_eq_false hread, Bool.false_and, Bool.false_and]

theorem genericExtract_readBit (hoff : bitOffset < 8) (hw : 0 < bitwidth ∨ bitOffset = 0)
    (hlen : nbitsToNbytes (bitOffset + bitwidth) ≤ data.length) :
    ∃ bytes, genericExtract data bitOffset bitwidth = some bytes ∧
      bytes.length = nbitsToNbytes bitwidth ∧
      ∀ i < 8 * nbitsToNbytes bitwidth, bitAt bytes i = readBit data bitOffset bitwidth i := by
  obtain ⟨bytes, hrun, hblen, hbits⟩ := genericExtract_spec hoff hw hlen
  refine ⟨bytes, hrun, hblen, fun i hi => ?_⟩
  rw [hbits i hi, readBit, Nat.mod_eq_of_lt hoff]
  rfl

/-- A field of no width inside a byte has no byte to be read to. -/
theorem genericExtract_zero (hoff : bitOffset ≠ 0) : genericExtract data bitOffset 0 = none := by
  unfold genericExtract
  rw [if_neg (by omega), if_pos (by simp [nbitsToNbytes])]

/-- When a field can be read. -/
theorem exists_genericExtract_iff (hoff : bitOffset < 8) :
    (∃ bytes, genericExtract data bitOffset bitwidth = some bytes) ↔
      (0 < bitwidth ∨ bitOffset = 0) ∧ nbitsToNbytes (bitOffset + bitwidth) ≤ data.length := by
  constructor
  · rintro ⟨bytes, hbytes⟩
    refine ⟨?_, ?_⟩
    · by_contra hno
      rw [not_or, Nat.not_lt, Nat.le_zero] at hno
      rw [hno.1, genericExtract_zero hno.2] at hbytes
      cases hbytes
    · by_contra hno
      rw [genericExtract_eq_none hoff (not_le.mp hno)] at hbytes
      cases hbytes
  · rintro ⟨hw, hlen⟩
    obtain ⟨bytes, hbytes, -⟩ := genericExtract_spec hoff hw hlen
    exact ⟨bytes, hbytes⟩

end Bm
