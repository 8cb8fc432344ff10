/-
# The Internet checksum

`cksum16` of `calculations.cpp` and its copy in `checksums.cpp`, on a little-endian
host: the buffer is added up eight bytes at a time with end-around carries, then
its tail of four, two and one bytes, and the sum is folded to 16 bits.

* `cksumSum_spec`: what the sum stands for;
* `cksum16_spec`: the checksum of the words in network order;
* `onesSum_insert`: a buffer with its checksum in it.
-/
import Bmv2.Lib.OnesComplement
import Bmv2.Phv

namespace Bm

/-- The number in bytes, the lowest byte first. -/
def leNat (bs : List Byte) : ℕ := Nat.ofDigits 256 (bs.map BitVec.toNat)

/-- A load of `w` bits on a little-endian host. -/
def loadHost (w : ℕ) (bs : List Byte) : BitVec w := BitVec.ofNat w (leNat bs)

/-- `sum += s; if (sum < s) sum++;`. -/
def addCarry {w : ℕ} (sum s : BitVec w) : BitVec w :=
  if sum + s < s then sum + s + 1 else sum + s

/-- The main loop, eight bytes at a time; what it leaves is the tail. -/
def cksumLoop (sum : BitVec 64) (buf : List Byte) : BitVec 64 × List Byte :=
  if 8 ≤ buf.length then cksumLoop (addCarry sum (loadHost 64 (buf.take 8))) (buf.drop 8)
  else (sum, buf)
termination_by buf.length

/-- One part of the tail, `w` bits wide, when the length has it. -/
def cksumTail (w : ℕ) (s : BitVec 64 × List Byte) : BitVec 64 × List Byte :=
  if s.2.length &&& (w / 8) ≠ 0 then
    (addCarry s.1 ((loadHost w (s.2.take (w / 8))).setWidth 64), s.2.drop (w / 8))
  else s

/-- The sum over the buffer, in 64 bits. -/
def cksumSum (buf : List Byte) : BitVec 64 :=
  (cksumTail 8 (cksumTail 16 (cksumTail 32 (cksumLoop 0 buf)))).1

/-- Fold down to 16 bits. -/
def cksumFold (sum : BitVec 64) : BitVec 16 :=
  let t1 : BitVec 32 := sum.setWidth 32
  let t2 : BitVec 32 := (sum >>> 32).setWidth 32
  let t1 := addCarry t1 t2
  let t3 : BitVec 16 := t1.setWidth 16
  let t4 : BitVec 16 := (t1 >>> 16).setWidth 16
  addCarry t3 t4

/-- `ntohs` on a little-endian host. -/
def ntohs (x : BitVec 16) : BitVec 16 := x.setWidth 8 ++ (x >>> 8).setWidth 8

/-- The bytes of a number in the memory of a little-endian host. -/
def hostBytes (x : BitVec 16) : List Byte := [x.setWidth 8, (x >>> 8).setWidth 8]

/-- `cksum16` of `calculations.cpp`. -/
def Hash.cksum16 (buf : List Byte) : BitVec 16 := ntohs (~~~cksumFold (cksumSum buf))

/-- `cksum16` of `checksums.cpp`. -/
def Checksum.cksum16 (buf : List Byte) : BitVec 16 := ~~~cksumFold (cksumSum buf)

/-! ## The specification -/

/-- The words of a buffer in network order; a last odd byte is padded with zero. -/
def netWords : List Byte → List (BitVec 16)
  | a :: b :: bs => (a ++ b) :: netWords bs
  | [a] => [a ++ 0#8]
  | [] => []

/-- The bytes of a number in network order. -/
def netBytes (x : BitVec 16) : List Byte := [(x >>> 8).setWidth 8, x.setWidth 8]

/-- The checksum of RFC 1071. -/
def rfc1071 (buf : List Byte) : BitVec 16 := ~~~onesSum (netWords buf)

/-! ## The sum -/

theorem leNat_append (as bs : List Byte) :
    leNat (as ++ bs) = leNat as + 256 ^ as.length * leNat bs := by
  rw [leNat, List.map_append, Nat.ofDigits_append, List.length_map]
  rfl

theorem leNat_lt (bs : List Byte) : leNat bs < 256 ^ bs.length := by
  have hlt := Nat.ofDigits_lt_base_pow_length (b := 256) (l := bs.map BitVec.toNat) (by norm_num)
    fun x hx => by
      obtain ⟨b, -, rfl⟩ := List.mem_map.mp hx
      exact b.isLt
  rwa [List.length_map] at hlt

theorem addCarry_eq_onesAdd {w : ℕ} (a b : BitVec w) : addCarry a b = onesAdd a b := by
  unfold addCarry onesAdd
  rw [if_congr (add_lt_iff a b) rfl rfl]
  rfl

/-- The first bytes of a buffer are added to the sum, and the rest is left: whole words, or all. -/
theorem leNat_split {n : ℕ} {buf : List Byte} (hlen : n ≤ buf.length)
    (hn : 256 ^ n ≡ 1 [MOD 65535] ∨ buf.length = n) {s : BitVec 64} (hs : s.toNat = leNat (buf.take n)) (sum : BitVec 64) :
    SameOnes 65535 ((addCarry sum s).toNat + leNat (buf.drop n)) (sum.toNat + leNat buf) := by
  have hadd := (onesAdd_spec (m := 65535) (by norm_num) sum s).add (SameOnes.refl _ (leNat (buf.drop n)))
  have hsplit := leNat_append (buf.take n) (buf.drop n)
  rw [List.take_append_drop, List.length_take, Nat.min_eq_left hlen] at hsplit
  rw [addCarry_eq_onesAdd]
  refine hadd.trans ?_
  rw [hsplit, hs, Nat.add_assoc]
  refine (SameOnes.refl _ _).add ?_
  rcases hn with hn | hn
  · exact (SameOnes.addMul hn (by positivity) _ _).symm
  · rw [List.drop_of_length_le hn.le, show leNat [] = 0 from rfl, Nat.mul_zero]
    exact SameOnes.refl _ _

theorem toNat_loadHost {w n : ℕ} (hw : w = 8 * n) {bs : List Byte} (hlen : bs.length = n) :
    (loadHost w bs).toNat = leNat bs := by
  have hlt := leNat_lt bs
  rw [hlen, show (256 : ℕ) = 2 ^ 8 from rfl, ← Nat.pow_mul, ← hw] at hlt
  rw [loadHost, BitVec.toNat_ofNat, Nat.mod_eq_of_lt hlt]

/-- The main loop leaves less than eight bytes. -/
theorem cksumLoop_spec (sum : BitVec 64) (buf : List Byte) :
    (cksumLoop sum buf).2.length < 8 ∧
      SameOnes 65535 ((cksumLoop sum buf).1.toNat + leNat (cksumLoop sum buf).2)
        (sum.toNat + leNat buf) := by
  induction sum, buf using cksumLoop.induct with
  | case1 sum buf hlen ih =>
    rw [cksumLoop, if_pos hlen]
    refine ⟨ih.1, ih.2.trans (leNat_split hlen (.inl (by decide)) ?_ sum)⟩
    exact toNat_loadHost (n := 8) rfl (by rw [List.length_take, Nat.min_eq_left hlen])
  | case2 sum buf hlen =>
    rw [cksumLoop, if_neg hlen]
    exact ⟨not_le.mp hlen, SameOnes.refl _ _⟩

/-- A part of the tail. -/
theorem cksumTail_spec {w n : ℕ} (hw : w = 8 * n) (hw64 : w ≤ 64) {s : BitVec 64 × List Byte}
    (hlen : s.2.length &&& n ≠ 0 → n ≤ s.2.length)
    (hn : 256 ^ n ≡ 1 [MOD 65535] ∨ s.2.length ≤ n) :
    SameOnes 65535 ((cksumTail w s).1.toNat + leNat (cksumTail w s).2) (s.1.toNat + leNat s.2) ∧
      (cksumTail w s).2.length =
        if s.2.length &&& n ≠ 0 then s.2.length - n else s.2.length := by
  have hdiv : w / 8 = n := by omega
  unfold cksumTail
  rw [hdiv]
  split
  · next hset =>
    have htake : (s.2.take n).length = n := by rw [List.length_take, Nat.min_eq_left (hlen hset)]
    refine ⟨leNat_split (hlen hset) (hn.imp_right fun h => h.antisymm (hlen hset)) ?_ s.1,
      List.length_drop⟩
    rw [BitVec.toNat_setWidth, toNat_loadHost hw htake, Nat.mod_eq_of_lt]
    have hlt := leNat_lt (s.2.take n)
    rw [htake, show (256 : ℕ) = 2 ^ 8 from rfl, ← Nat.pow_mul, ← hw] at hlt
    exact hlt.trans_le (Nat.pow_le_pow_right (by norm_num) hw64)
  · exact ⟨SameOnes.refl _ _, rfl⟩

/-- The sum stands for the number in the buffer. -/
theorem cksumSum_spec (buf : List Byte) : SameOnes 65535 (cksumSum buf).toNat (leNat buf) := by
  obtain ⟨hlen₀, hloop⟩ := cksumLoop_spec 0 buf
  have hfour : ∀ l < 8, (l &&& 4 ≠ 0 → 4 ≤ l) ∧ (if l &&& 4 ≠ 0 then l - 4 else l) < 4 := by decide
  have htwo : ∀ l < 4, (l &&& 2 ≠ 0 → 2 ≤ l) ∧ (if l &&& 2 ≠ 0 then l - 2 else l) < 2 := by decide
  have hone : ∀ l < 2, (l &&& 1 ≠ 0 → 1 ≤ l) ∧ (if l &&& 1 ≠ 0 then l - 1 else l) < 1 := by decide
  obtain ⟨h₁, hlen₁⟩ := cksumTail_spec (w := 32) (n := 4) rfl (by norm_num)
    (hfour _ hlen₀).1 (.inl (by decide))
  replace hlen₁ := hlen₁ ▸ (hfour _ hlen₀).2
  obtain ⟨h₂, hlen₂⟩ := cksumTail_spec (w := 16) (n := 2) rfl (by norm_num)
    (htwo _ hlen₁).1 (.inl (by decide))
  replace hlen₂ := hlen₂ ▸ (htwo _ hlen₁).2
  obtain ⟨h₃, hlen₃⟩ := cksumTail_spec (w := 8) (n := 1) rfl (by norm_num)
    (hone _ hlen₂).1 (.inr (Nat.le_of_lt_succ hlen₂))
  replace hlen₃ := hlen₃ ▸ (hone _ hlen₂).2
  have hnil := List.length_eq_zero_iff.mp (Nat.lt_one_iff.mp hlen₃)
  have hall := ((h₃.trans h₂).trans h₁).trans hloop
  rw [hnil, show leNat [] = 0 from rfl, Nat.add_zero, show (0 : BitVec 64).toNat = 0 from rfl,
    Nat.zero_add] at hall
  exact hall

/-! ## The checksum -/

/-- Folding keeps what a sum stands for. -/
theorem cksumFold_spec (sum : BitVec 64) : SameOnes 65535 (cksumFold sum).toNat sum.toNat := by
  unfold cksumFold
  dsimp only
  rw [addCarry_eq_onesAdd, addCarry_eq_onesAdd]
  have hsum := sum.isLt
  have hwide : SameOnes 65535
      (onesAdd (sum.setWidth 32) ((sum >>> 32).setWidth 32)).toNat sum.toNat := by
    refine (onesAdd_spec (by norm_num) _ _).trans ?_
    have hsplit : sum.toNat = (sum.setWidth 32).toNat + 2 ^ 32 * ((sum >>> 32).setWidth 32).toNat := by
      rw [BitVec.toNat_setWidth, BitVec.toNat_setWidth, BitVec.toNat_ushiftRight,
        Nat.shiftRight_eq_div_pow]
      omega
    rw [hsplit]
    exact (SameOnes.addMul (by decide) (by norm_num) _ _).symm
  generalize onesAdd (sum.setWidth 32) ((sum >>> 32).setWidth 32) = t1 at hwide ⊢
  have ht1 := t1.isLt
  refine (onesAdd_spec (by norm_num) _ _).trans (SameOnes.trans ?_ hwide)
  have hsplit : t1.toNat = (t1.setWidth 16).toNat + 2 ^ 16 * ((t1 >>> 16).setWidth 16).toNat := by
    rw [BitVec.toNat_setWidth, BitVec.toNat_setWidth, BitVec.toNat_ushiftRight,
      Nat.shiftRight_eq_div_pow]
    omega
  rw [hsplit]
  exact (SameOnes.addMul (by decide) (by norm_num) _ _).symm

theorem toNat_append_byte (a b : Byte) : (a ++ b).toNat = 256 * a.toNat + b.toNat := by
  rw [BitVec.toNat_append, ← Nat.shiftLeft_add_eq_or_of_lt b.isLt, Nat.shiftLeft_eq, Nat.mul_comm]

theorem toNat_lowByte (x : BitVec 16) : (x.setWidth 8 : Byte).toNat = x.toNat % 256 :=
  BitVec.toNat_setWidth _ _

theorem toNat_highByte (x : BitVec 16) : ((x >>> 8).setWidth 8 : Byte).toNat = x.toNat / 256 := by
  have hx := x.isLt
  rw [BitVec.toNat_setWidth, BitVec.toNat_ushiftRight, Nat.shiftRight_eq_div_pow]
  omega

theorem toNat_ntohs (x : BitVec 16) : (ntohs x).toNat = 256 * (x.toNat % 256) + x.toNat / 256 := by
  rw [ntohs, toNat_append_byte, toNat_lowByte, toNat_highByte]

/-- A swap of the bytes is a multiplication by 256. -/
theorem ntohs_spec (x : BitVec 16) : SameOnes 65535 (ntohs x).toNat (256 * x.toNat) := by
  have hmul : 256 * x.toNat = 256 * (x.toNat % 256) + 65536 * (x.toNat / 256) := by omega
  rw [toNat_ntohs, hmul]
  exact (SameOnes.addMul (by decide) (by norm_num) _ _).symm

theorem ntohs_not (x : BitVec 16) : ntohs (~~~x) = ~~~ntohs x := by
  have hx := x.isLt
  apply BitVec.eq_of_toNat_eq
  rw [toNat_ntohs, BitVec.toNat_not, BitVec.toNat_not, toNat_ntohs]
  omega

theorem hostBytes_eq (x : BitVec 16) : hostBytes x = netBytes (ntohs x) := by
  have hx := x.isLt
  have hhigh : (x.setWidth 8 : Byte) = (ntohs x >>> 8).setWidth 8 := by
    apply BitVec.eq_of_toNat_eq
    rw [toNat_lowByte, toNat_highByte, toNat_ntohs]
    omega
  have hlow : ((x >>> 8).setWidth 8 : Byte) = (ntohs x).setWidth 8 := by
    apply BitVec.eq_of_toNat_eq
    rw [toNat_highByte, toNat_lowByte, toNat_ntohs]
    omega
  rw [hostBytes, netBytes, hhigh, hlow]

/-! ## The words in network order -/

/-- The words stand for 256 times the number. -/
theorem netWords_spec (buf : List Byte) :
    SameOnes 65535 ((netWords buf).map BitVec.toNat).sum (256 * leNat buf) := by
  induction buf using netWords.induct with
  | case1 a b bs ih =>
    have hle : 256 * leNat (a :: b :: bs) =
        256 * a.toNat + 65536 * (b.toNat + 256 * leNat bs) := by
      show 256 * (a.toNat + 256 * (b.toNat + 256 * leNat bs)) = _
      omega
    rw [netWords, List.map_cons, List.sum_cons, toNat_append_byte, Nat.add_assoc, hle]
    refine SameOnes.trans ?_ (SameOnes.addMul (by decide) (by norm_num) _ _).symm
    exact (SameOnes.refl _ _).add ((SameOnes.refl _ _).add ih)
  | case2 a =>
    have hle : 256 * leNat [a] = 256 * a.toNat := by
      show 256 * (a.toNat + 256 * 0) = _
      omega
    rw [netWords, List.map_cons, List.map_nil, List.sum_singleton, toNat_append_byte, hle]
    exact SameOnes.refl _ _
  | case3 => exact SameOnes.refl _ _

theorem netWords_append {as : List Byte} (hlen : as.length % 2 = 0) (bs : List Byte) :
    netWords (as ++ bs) = netWords as ++ netWords bs := by
  induction as using netWords.induct with
  | case1 a b as ih =>
    rw [List.length_cons, List.length_cons] at hlen
    rw [List.cons_append, List.cons_append, netWords, netWords, ih (by omega), List.cons_append]
  | case2 a => simp at hlen
  | case3 => rfl

theorem netWords_netBytes (x : BitVec 16) : netWords (netBytes x) = [x] := by
  have hx := x.isLt
  refine congrArg (· :: []) (BitVec.eq_of_toNat_eq ?_)
  rw [toNat_append_byte, toNat_highByte, toNat_lowByte]
  omega

/-- Swapped, the folded sum is the sum of the words in network order. -/
theorem ntohs_cksumFold (buf : List Byte) :
    ntohs (cksumFold (cksumSum buf)) = onesSum (netWords buf) := by
  have hsum := (cksumFold_spec (cksumSum buf)).trans (cksumSum_spec buf)
  have hswap := (ntohs_spec (cksumFold (cksumSum buf))).trans (hsum.mul_left 256)
  have hwords := onesSum_spec (m := 65535) (w := 16) (by norm_num) (netWords buf)
  exact BitVec.eq_of_sameOnes ((hswap.trans (netWords_spec buf).symm).trans hwords.symm)

/-- A buffer with two zero bytes at an even place, in words. -/
theorem netWords_take_drop {buf : List Byte} {i : ℕ} (heven : i % 2 = 0) (hlen : i + 2 ≤ buf.length)
    (x : BitVec 16) : netWords (buf.take i ++ netBytes x ++ buf.drop (i + 2)) =
      netWords (buf.take i) ++ x :: netWords (buf.drop (i + 2)) := by
  have htake : (buf.take i).length = i := by rw [List.length_take, Nat.min_eq_left (by omega)]
  rw [List.append_assoc, netWords_append (by rw [htake, heven]), netWords_append
    (by simp [netBytes]), netWords_netBytes]
  rfl

/-- The sum of a buffer with its checksum in it, in a place that was zero. -/
theorem onesSum_insert {buf : List Byte} {i : ℕ} (heven : i % 2 = 0) (hzero : buf[i]? = some 0)
    (hzero' : buf[i + 1]? = some 0) :
    onesSum (netWords (buf.take i ++ netBytes (rfc1071 buf) ++ buf.drop (i + 2))) =
      BitVec.allOnes 16 := by
  obtain ⟨hlen, hget⟩ := List.getElem?_eq_some_iff.mp hzero
  obtain ⟨hlen', hget'⟩ := List.getElem?_eq_some_iff.mp hzero'
  have hbuf : buf = buf.take i ++ netBytes 0 ++ buf.drop (i + 2) := by
    conv_lhs => rw [← List.take_append_drop i buf, List.drop_eq_getElem_cons hlen,
      List.drop_eq_getElem_cons hlen', hget, hget']
    rw [List.append_assoc]
    rfl
  have hwords := onesSum_spec (m := 65535) (w := 16) (by norm_num)
    (netWords (buf.take i ++ netBytes (rfc1071 buf) ++ buf.drop (i + 2)))
  have hzeroWords := onesSum_spec (m := 65535) (w := 16) (by norm_num) (netWords buf)
  have hlt := (onesSum (netWords buf)).isLt
  rw [netWords_take_drop heven (by omega)] at hwords ⊢
  have hsplit : ((netWords (buf.take i) ++ rfc1071 buf :: netWords (buf.drop (i + 2))).map
      BitVec.toNat).sum = ((netWords buf).map BitVec.toNat).sum + (rfc1071 buf).toNat := by
    have hold : ((netWords buf).map BitVec.toNat).sum =
        ((netWords (buf.take i)).map BitVec.toNat).sum +
          ((netWords (buf.drop (i + 2))).map BitVec.toNat).sum := by
      conv_lhs => rw [hbuf, netWords_take_drop heven (by omega)]
      simp
    rw [hold, List.map_append, List.sum_append, List.map_cons, List.sum_cons]
    omega
  rw [hsplit] at hwords
  refine BitVec.eq_of_sameOnes (hwords.trans ?_)
  refine (hzeroWords.symm.add (SameOnes.refl _ _)).trans ?_
  rw [rfc1071, BitVec.toNat_not, BitVec.toNat_allOnes,
    show (onesSum (netWords buf)).toNat + (2 ^ 16 - 1 - (onesSum (netWords buf)).toNat) = 2 ^ 16 - 1 by
      omega]
  exact SameOnes.refl _ _

theorem hash_cksum16_eq (buf : List Byte) : Hash.cksum16 buf = rfc1071 buf := by
  rw [Hash.cksum16, ntohs_not, ntohs_cksumFold, rfc1071]

theorem hostBytes_cksum16 (buf : List Byte) :
    hostBytes (Checksum.cksum16 buf) = netBytes (rfc1071 buf) := by
  rw [hostBytes_eq, Checksum.cksum16, ntohs_not, ntohs_cksumFold, rfc1071]

/-- Both copies are the checksum of RFC 1071, as a number and as bytes in network order, and it
completes the sum of the buffer. -/
theorem cksum16_rfc1071 (buf : List Byte) :
    Hash.cksum16 buf = rfc1071 buf ∧ hostBytes (Checksum.cksum16 buf) = netBytes (rfc1071 buf) ∧
      ∀ i : ℕ, i % 2 = 0 → buf[i]? = some 0 → buf[i + 1]? = some 0 →
        onesSum (netWords (buf.take i ++ hostBytes (Checksum.cksum16 buf) ++ buf.drop (i + 2))) =
          BitVec.allOnes 16 := by
  refine ⟨hash_cksum16_eq buf, hostBytes_cksum16 buf, fun i heven hzero hzero' => ?_⟩
  rw [hostBytes_cksum16]
  exact onesSum_insert heven hzero hzero'

/-- The checksum of an odd number of bytes, at the offset 2. -/
theorem cksum16_rfc1071_odd :
    onesSum (netWords ([0x45, 0xff, 0, 0, 0x07].take 2 ++
      hostBytes (Checksum.cksum16 [0x45, 0xff, 0, 0, 0x07]) ++ [0x45, 0xff, 0, 0, 0x07].drop (2 + 2))) =
        BitVec.allOnes 16 :=
  (cksum16_rfc1071 [0x45, 0xff, 0, 0, 0x07]).2.2 2 rfl rfl rfl

end Bm
