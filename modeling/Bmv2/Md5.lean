/-
# The MD5 digest of the configuration

`md5.c`, which `get_config_md5` takes the digest of the JSON configuration with: the buffer for bytes that
do not fill a block, the length counter in two words, the 64 steps of a block with its tuned functions, and
the padding made in the buffer.  The specification is RFC 1321.

* `block_eq_rfcBlock`: the steps of a block;
* `update_spec`: what the context stands for after one more piece;
* `final_spec`: the padding;
* `md5_pieces`: **the digest is that of RFC 1321**, for every message and every way of feeding it.
-/
import Bmv2.Lib.BlockStream
import Bmv2.Lib.Blocks
import Bmv2.InternetChecksum

namespace Bm

namespace Md5

/-- `MD5_u32plus`. -/
abbrev U32 := BitVec 32

def F (x y z : U32) : U32 := z ^^^ (x &&& (y ^^^ z))

def G (x y z : U32) : U32 := y ^^^ (z &&& (x ^^^ y))

def H (x y z : U32) : U32 := (x ^^^ y) ^^^ z

def H2 (x y z : U32) : U32 := x ^^^ (y ^^^ z)

def I (x y z : U32) : U32 := y ^^^ (x ||| ~~~z)

/-- The registers, in the order in which the next line of a round names them. -/
structure Regs where
  a : U32
  b : U32
  c : U32
  d : U32
  deriving DecidableEq

/-- A line `STEP(f, …, SET(k), t, s)` of a round. -/
structure Line where
  f : U32 → U32 → U32 → U32
  k : ℕ
  t : U32
  s : ℕ

/-- `STEP(f, a, b, c, d, x, t, s)`: what it makes of `a`. -/
def STEP (f : U32 → U32 → U32 → U32) (a b c d x t : U32) (s : ℕ) : U32 :=
  let a := a + (f b c d + x + t)
  let a := (a <<< s) ||| ((a &&& 0xffffffff) >>> (32 - s))
  a + b

/-- One line, on the words `x` of the block.  The line after it names the registers one place on:
`a, b, c, d`, then `d, a, b, c`. -/
def Regs.step (x : ℕ → U32) (r : Regs) (l : Line) : Regs :=
  ⟨r.d, STEP l.f r.a r.b r.c r.d (x l.k) l.t l.s, r.b, r.c⟩

def round1 : List Line :=
  [⟨F, 0, 0xd76aa478, 7⟩, ⟨F, 1, 0xe8c7b756, 12⟩, ⟨F, 2, 0x242070db, 17⟩, ⟨F, 3, 0xc1bdceee, 22⟩,
   ⟨F, 4, 0xf57c0faf, 7⟩, ⟨F, 5, 0x4787c62a, 12⟩, ⟨F, 6, 0xa8304613, 17⟩, ⟨F, 7, 0xfd469501, 22⟩,
   ⟨F, 8, 0x698098d8, 7⟩, ⟨F, 9, 0x8b44f7af, 12⟩, ⟨F, 10, 0xffff5bb1, 17⟩, ⟨F, 11, 0x895cd7be, 22⟩,
   ⟨F, 12, 0x6b901122, 7⟩, ⟨F, 13, 0xfd987193, 12⟩, ⟨F, 14, 0xa679438e, 17⟩, ⟨F, 15, 0x49b40821, 22⟩]

def round2 : List Line :=
  [⟨G, 1, 0xf61e2562, 5⟩, ⟨G, 6, 0xc040b340, 9⟩, ⟨G, 11, 0x265e5a51, 14⟩, ⟨G, 0, 0xe9b6c7aa, 20⟩,
   ⟨G, 5, 0xd62f105d, 5⟩, ⟨G, 10, 0x02441453, 9⟩, ⟨G, 15, 0xd8a1e681, 14⟩, ⟨G, 4, 0xe7d3fbc8, 20⟩,
   ⟨G, 9, 0x21e1cde6, 5⟩, ⟨G, 14, 0xc33707d6, 9⟩, ⟨G, 3, 0xf4d50d87, 14⟩, ⟨G, 8, 0x455a14ed, 20⟩,
   ⟨G, 13, 0xa9e3e905, 5⟩, ⟨G, 2, 0xfcefa3f8, 9⟩, ⟨G, 7, 0x676f02d9, 14⟩, ⟨G, 12, 0x8d2a4c8a, 20⟩]

def round3 : List Line :=
  [⟨H, 5, 0xfffa3942, 4⟩, ⟨H2, 8, 0x8771f681, 11⟩, ⟨H, 11, 0x6d9d6122, 16⟩, ⟨H2, 14, 0xfde5380c, 23⟩,
   ⟨H, 1, 0xa4beea44, 4⟩, ⟨H2, 4, 0x4bdecfa9, 11⟩, ⟨H, 7, 0xf6bb4b60, 16⟩, ⟨H2, 10, 0xbebfbc70, 23⟩,
   ⟨H, 13, 0x289b7ec6, 4⟩, ⟨H2, 0, 0xeaa127fa, 11⟩, ⟨H, 3, 0xd4ef3085, 16⟩, ⟨H2, 6, 0x04881d05, 23⟩,
   ⟨H, 9, 0xd9d4d039, 4⟩, ⟨H2, 12, 0xe6db99e5, 11⟩, ⟨H, 15, 0x1fa27cf8, 16⟩, ⟨H2, 2, 0xc4ac5665, 23⟩]

def round4 : List Line :=
  [⟨I, 0, 0xf4292244, 6⟩, ⟨I, 7, 0x432aff97, 10⟩, ⟨I, 14, 0xab9423a7, 15⟩, ⟨I, 5, 0xfc93a039, 21⟩,
   ⟨I, 12, 0x655b59c3, 6⟩, ⟨I, 3, 0x8f0ccc92, 10⟩, ⟨I, 10, 0xffeff47d, 15⟩, ⟨I, 1, 0x85845dd1, 21⟩,
   ⟨I, 8, 0x6fa87e4f, 6⟩, ⟨I, 15, 0xfe2ce6e0, 10⟩, ⟨I, 6, 0xa3014314, 15⟩, ⟨I, 13, 0x4e0811a1, 21⟩,
   ⟨I, 4, 0xf7537e82, 6⟩, ⟨I, 11, 0xbd3af235, 10⟩, ⟨I, 2, 0x2ad7d2bb, 15⟩, ⟨I, 9, 0xeb86d391, 21⟩]

/-- `SET(n)` on a little-endian machine: a load of word `n`. -/
def SET (ptr : List Byte) (n : ℕ) : U32 := loadHost 32 ((ptr.drop (n * 4)).take 4)

/-- One pass of the loop of `body`. -/
def Regs.block (r : Regs) (ptr : List Byte) : Regs :=
  let r' := (round1 ++ round2 ++ round3 ++ round4).foldl (Regs.step (SET ptr)) r
  ⟨r'.a + r.a, r'.b + r.b, r'.c + r.c, r'.d + r.d⟩

/-- `body`: the registers, and where `ptr` is.  `size` is a positive multiple of 64. -/
def body (r : Regs) (ptr : List Byte) (size : ℕ) : Regs × List Byte :=
  if size - 64 = 0 then (r.block ptr, ptr.drop 64)
  else body (r.block ptr) (ptr.drop 64) (size - 64)
termination_by size

/-- `MD5_CTX`; `block` is for machines that are not little-endian. -/
structure Ctx where
  lo : U32
  hi : U32
  regs : Regs
  buffer : List Byte

/-- `MD5_Init` leaves the buffer as it is. -/
def init (ctx : Ctx) : Ctx :=
  { ctx with regs := ⟨0x67452301, 0xefcdab89, 0x98badcfe, 0x10325476⟩, lo := 0, hi := 0 }

/-- The end of `MD5_Update`: whole blocks straight from the data, the rest to the buffer. -/
def updateBlocks (ctx : Ctx) (data : List Byte) : Ctx :=
  if 64 ≤ data.length then
    let res := body ctx.regs data (data.length / 64 * 64)
    { ctx with regs := res.1, buffer := copyAt ctx.buffer 0 res.2 }
  else { ctx with buffer := copyAt ctx.buffer 0 data }

/-- The beginning of `MD5_Update`: the length counter; `unsigned long` has 64 bits. -/
def Ctx.count (ctx : Ctx) (size : BitVec 64) : Ctx :=
  let saved_lo := ctx.lo
  let lo : U32 := ((saved_lo.setWidth 64 + size) &&& 0x1fffffff).setWidth 32
  let hi : U32 := if lo < saved_lo then ctx.hi + 1 else ctx.hi
  { ctx with lo := lo, hi := hi + (size >>> 29).setWidth 32 }

/-- `MD5_Update`. -/
def update (ctx : Ctx) (data : List Byte) : Ctx :=
  let used := (ctx.lo &&& 0x3f).toNat
  let ctx := ctx.count (BitVec.ofNat 64 data.length)
  if used ≠ 0 then
    let available := 64 - used
    if data.length < available then { ctx with buffer := copyAt ctx.buffer used data }
    else
      let buffer := copyAt ctx.buffer used (data.take available)
      updateBlocks { ctx with regs := (body ctx.regs buffer 64).1, buffer := buffer } (data.drop available)
  else updateBlocks ctx data

/-- The four bytes of a word, the lowest first. -/
def wordBytes (x : U32) : List Byte :=
  [x.setWidth 8, (x >>> 8).setWidth 8, (x >>> 16).setWidth 8, (x >>> 24).setWidth 8]

/-- `result`: the registers, byte by byte. -/
def Regs.result (r : Regs) : List Byte := wordBytes r.a ++ wordBytes r.b ++ wordBytes r.c ++ wordBytes r.d

/-- The end of `MD5_Final`: zeros up to the last eight bytes, and the length in bits. -/
def finalBlock (ctx : Ctx) (used : ℕ) : List Byte :=
  let available := 64 - used
  let buffer := copyAt ctx.buffer used (List.replicate (available - 8) 0)
  let lo := ctx.lo <<< 3
  let buffer := copyAt buffer 56 (wordBytes lo)
  let buffer := copyAt buffer 60 (wordBytes ctx.hi)
  (body ctx.regs buffer 64).1.result

/-- `MD5_Final`. -/
def final (ctx : Ctx) : List Byte :=
  let used := (ctx.lo &&& 0x3f).toNat
  let buffer := ctx.buffer.set used 0x80
  let used := used + 1
  let available := 64 - used
  if available < 8 then
    let buffer := copyAt buffer used (List.replicate available 0)
    finalBlock { ctx with regs := (body ctx.regs buffer 64).1, buffer := buffer } 0
  else finalBlock { ctx with buffer := buffer } used

end Md5

/-- `SwitchWContexts::get_config_md5_`, on a context that is not initialised. -/
def getConfigMd5 (cxt : Md5.Ctx) (current_config : List Byte) : List Byte :=
  Md5.final (Md5.update (Md5.init cxt) current_config)

/-! ## RFC 1321 -/

namespace Md5

/-- The function of step `i`. -/
def rfcFun (i : ℕ) (x y z : U32) : U32 :=
  if i < 16 then (x &&& y) ||| (~~~x &&& z)
  else if i < 32 then (x &&& z) ||| (y &&& ~~~z)
  else if i < 48 then x ^^^ y ^^^ z
  else y ^^^ (x ||| ~~~z)

/-- The word of the block that step `i` adds. -/
def rfcWord (i : ℕ) : ℕ :=
  if i < 16 then i else if i < 32 then (5 * i + 1) % 16 else if i < 48 then (3 * i + 5) % 16 else 7 * i % 16

/-- How far step `i` rotates: four amounts in turn for each round. -/
def rfcShift (i : ℕ) : ℕ :=
  ([[7, 12, 17, 22], [5, 9, 14, 20], [4, 11, 16, 23], [6, 10, 15, 21]][i / 16]?.bind (·[i % 4]?)).getD 0

/-- The table `T`: entry `i` is the integer part of 4294967296 times abs(sin(i)), for `i` from 1 on. -/
def rfcTable : List U32 :=
  [0xd76aa478, 0xe8c7b756, 0x242070db, 0xc1bdceee, 0xf57c0faf, 0x4787c62a, 0xa8304613, 0xfd469501,
   0x698098d8, 0x8b44f7af, 0xffff5bb1, 0x895cd7be, 0x6b901122, 0xfd987193, 0xa679438e, 0x49b40821,
   0xf61e2562, 0xc040b340, 0x265e5a51, 0xe9b6c7aa, 0xd62f105d, 0x02441453, 0xd8a1e681, 0xe7d3fbc8,
   0x21e1cde6, 0xc33707d6, 0xf4d50d87, 0x455a14ed, 0xa9e3e905, 0xfcefa3f8, 0x676f02d9, 0x8d2a4c8a,
   0xfffa3942, 0x8771f681, 0x6d9d6122, 0xfde5380c, 0xa4beea44, 0x4bdecfa9, 0xf6bb4b60, 0xbebfbc70,
   0x289b7ec6, 0xeaa127fa, 0xd4ef3085, 0x04881d05, 0xd9d4d039, 0xe6db99e5, 0x1fa27cf8, 0xc4ac5665,
   0xf4292244, 0x432aff97, 0xab9423a7, 0xfc93a039, 0x655b59c3, 0x8f0ccc92, 0xffeff47d, 0x85845dd1,
   0x6fa87e4f, 0xfe2ce6e0, 0xa3014314, 0x4e0811a1, 0xf7537e82, 0xbd3af235, 0x2ad7d2bb, 0xeb86d391]

/-- Step `i`: `a = b + ((a + f(b,c,d) + X[k] + T[i]) <<< s)`. -/
def rfcStep (x : ℕ → U32) (r : Regs) (i : ℕ) : Regs :=
  let a := r.a + rfcFun i r.b r.c r.d + x (rfcWord i) + (rfcTable[i]?).getD 0
  ⟨r.d, r.b + a.rotateLeft (rfcShift i), r.b, r.c⟩

/-- A block of 16 words: 64 steps, and the registers of before added to theirs. -/
def rfcBlock (r : Regs) (ptr : List Byte) : Regs :=
  let r' := (List.range 64).foldl (rfcStep fun n => loadHost 32 ((ptr.drop (4 * n)).take 4)) r
  ⟨r.a + r'.a, r.b + r'.b, r.c + r'.c, r.d + r'.d⟩

/-- The `k` low bytes of a number, the lowest first. -/
def leBytes (k n : ℕ) : List Byte := (List.range k).map fun i => BitVec.ofNat 8 (n / 256 ^ i)

/-- The message, a bit 1, zeros up to 448 bits modulo 512, and the low 64 bits of its length in bits. -/
def rfcPad (m : List Byte) : List Byte :=
  m ++ 0x80 :: List.replicate ((119 - m.length % 64) % 64) 0 ++ leBytes 8 (8 * m.length)

/-- The blocks of RFC 1321. -/
def rfcBlocks : Blockwise Regs Byte := ⟨64, by decide, rfcBlock⟩

/-- The digest of a message. -/
def rfc1321 (m : List Byte) : List Byte :=
  let r := rfcBlocks.run ⟨0x67452301, 0xefcdab89, 0x98badcfe, 0x10325476⟩ (rfcPad m)
  [r.a, r.b, r.c, r.d].flatMap fun x => leBytes 4 x.toNat

/-! ## The steps of a block -/

theorem F_eq (x y z : U32) : F x y z = (x &&& y) ||| (~~~x &&& z) := by
  apply BitVec.eq_of_getElem_eq
  intro i hi
  simp only [F, BitVec.getElem_xor, BitVec.getElem_and, BitVec.getElem_or, BitVec.getElem_not]
  cases x[i] <;> cases y[i] <;> cases z[i] <;> rfl

theorem G_eq (x y z : U32) : G x y z = (x &&& z) ||| (y &&& ~~~z) := by
  apply BitVec.eq_of_getElem_eq
  intro i hi
  simp only [G, BitVec.getElem_xor, BitVec.getElem_and, BitVec.getElem_or, BitVec.getElem_not]
  cases x[i] <;> cases y[i] <;> cases z[i] <;> rfl

theorem H2_eq_H : H2 = H := by
  funext x y z
  exact (BitVec.xor_assoc x y z).symm

/-- The functions of the source are those of RFC 1321, for any step of their round. -/
theorem rfcFun_F {i : ℕ} (h : i < 16) : rfcFun i = F := by
  funext x y z
  rw [rfcFun, if_pos h, F_eq]

theorem rfcFun_G {i : ℕ} (h : 16 ≤ i ∧ i < 32) : rfcFun i = G := by
  funext x y z
  rw [rfcFun, if_neg (by omega), if_pos h.2, G_eq]

theorem rfcFun_H {i : ℕ} (h : 32 ≤ i ∧ i < 48) : rfcFun i = H := by
  funext x y z
  rw [rfcFun, if_neg (by omega), if_neg (by omega), if_pos h.2]
  rfl

theorem rfcFun_I {i : ℕ} (h : 48 ≤ i) : rfcFun i = I := by
  funext x y z
  rw [rfcFun, if_neg (by omega), if_neg (by omega), if_neg (by omega)]
  rfl

/-- Step `i` of RFC 1321 as a line. -/
def rfcLine (i : ℕ) : Line := ⟨rfcFun i, rfcWord i, (rfcTable[i]?).getD 0, rfcShift i⟩

/-- A round is 16 steps, when the words, the table and the shifts are right. -/
theorem round_eq (round : List Line) (n : ℕ) {f : U32 → U32 → U32 → U32}
    (hf : ∀ i, n ≤ i → i < n + 16 → rfcFun i = f)
    (hround : round = (List.range' n 16).map fun i => ⟨f, rfcWord i, (rfcTable[i]?).getD 0, rfcShift i⟩) :
    round = (List.range' n 16).map rfcLine := by
  rw [hround]
  apply List.map_congr_left
  intro i hi
  rw [List.mem_range'_1] at hi
  rw [rfcLine, hf i hi.1 hi.2]

theorem round3_eq :
    round3 = (List.range' 32 16).map fun i => ⟨H, rfcWord i, (rfcTable[i]?).getD 0, rfcShift i⟩ := by
  rw [round3, H2_eq_H]
  rfl

/-- **The lines of the source are the steps of RFC 1321.** -/
theorem rounds_eq : round1 ++ round2 ++ round3 ++ round4 = (List.range 64).map rfcLine := by
  rw [round_eq round1 0 (fun i _ h => rfcFun_F h) rfl,
    round_eq round2 16 (fun i h h' => rfcFun_G ⟨h, h'⟩) rfl,
    round_eq round3 32 (fun i h h' => rfcFun_H ⟨h, h'⟩) round3_eq,
    round_eq round4 48 (fun i h _ => rfcFun_I h) rfl]
  rfl

theorem rfcShift_lt (i : ℕ) : rfcShift i < 32 := by
  rw [rfcShift]
  rcases Nat.lt_or_ge (i / 16) 4 with h | h
  · have hmod : i % 4 < 4 := Nat.mod_lt _ (by decide)
    interval_cases i / 16 <;> interval_cases i % 4 <;> decide
  · rw [List.getElem?_eq_none (by simpa using h)]
    exact Nat.zero_lt_succ 31

theorem STEP_eq (f : U32 → U32 → U32 → U32) (a b c d x t : U32) {s : ℕ} (hs : s < 32) :
    STEP f a b c d x t s = b + (a + f b c d + x + t).rotateLeft s := by
  have hmask (y : U32) : y &&& 0xffffffff = y := BitVec.and_allOnes
  rw [STEP, hmask, BitVec.add_comm, BitVec.rotateLeft_def, Nat.mod_eq_of_lt hs]
  simp only [BitVec.add_assoc]

theorem step_eq (x : ℕ → U32) (r : Regs) (i : ℕ) : r.step x (rfcLine i) = rfcStep x r i := by
  rw [Regs.step, rfcLine, STEP_eq _ _ _ _ _ _ _ (rfcShift_lt i)]
  rfl

/-- **The block of the source is the block of RFC 1321.** -/
theorem block_eq_rfcBlock : Regs.block = rfcBlock := by
  funext r ptr
  have hwords : SET ptr = fun n => loadHost 32 ((ptr.drop (4 * n)).take 4) := by
    funext n
    rw [SET, Nat.mul_comm]
  have hsteps (x : ℕ → U32) :
      ((List.range 64).map rfcLine).foldl (Regs.step x) r = (List.range 64).foldl (rfcStep x) r := by
    rw [List.foldl_map]
    congr 1
    funext r i
    exact step_eq x r i
  rw [Regs.block, rounds_eq, hwords, hsteps, rfcBlock]
  simp only [BitVec.add_comm]

theorem rfcBlocks_size : rfcBlocks.size = 64 := rfl

theorem rfcBlocks_block : rfcBlocks.block = rfcBlock := rfl

theorem rfcWord_lt {i : ℕ} (_ : i < 64) : rfcWord i < 16 := by
  rw [rfcWord]
  split_ifs <;> omega

/-- A block is its first 64 bytes. -/
theorem rfcBlock_take (r : Regs) (ptr : List Byte) : rfcBlock r (ptr.take 64) = rfcBlock r ptr := by
  have hword {n : ℕ} (hn : n < 16) : ((ptr.take 64).drop (4 * n)).take 4 = (ptr.drop (4 * n)).take 4 := by
    rw [List.drop_take, List.take_take, Nat.min_eq_left (by omega)]
  have hsteps : (List.range 64).foldl (rfcStep fun n => loadHost 32 (((ptr.take 64).drop (4 * n)).take 4)) r =
      (List.range 64).foldl (rfcStep fun n => loadHost 32 ((ptr.drop (4 * n)).take 4)) r := by
    apply List.foldl_ext
    intro r i hi
    rw [rfcStep, rfcStep, hword (rfcWord_lt (List.mem_range.mp hi))]
  rw [rfcBlock, rfcBlock, hsteps]

/-! ## The context -/

theorem body_eq (r : Regs) (ptr : List Byte) {n : ℕ} (hn : 0 < n) :
    body r ptr (n * 64) = (rfcBlocks.blocks n r ptr, ptr.drop (n * 64)) := by
  induction n generalizing r ptr with
  | zero => exact absurd hn (lt_irrefl 0)
  | succ n ih =>
    have hsub : (n + 1) * 64 - 64 = n * 64 := by omega
    have hblock : rfcBlocks.blocks (n + 1) r ptr = rfcBlocks.blocks n (rfcBlock r ptr) (ptr.drop 64) := by
      rw [Blockwise.blocks, rfcBlocks_size, rfcBlocks_block, rfcBlock_take]
    rw [body.eq_def, hsub, block_eq_rfcBlock, hblock]
    rcases Nat.eq_zero_or_pos n with rfl | hpos
    · rw [Nat.zero_mul, if_pos rfl, Blockwise.blocks, Nat.zero_add, Nat.one_mul]
    · rw [if_neg (by omega), ih _ _ hpos, List.drop_drop, Nat.add_comm 64, ← Nat.succ_mul]

theorem body_one {r : Regs} {ptr : List Byte} (hlen : ptr.length = 64) : (body r ptr 64).1 = rfcBlocks.run r ptr := by
  have hone : ptr.length / rfcBlocks.size = 1 := by
    rw [hlen]
    exact Nat.div_self (by decide)
  have hbody := body_eq r ptr Nat.one_pos
  rw [Nat.one_mul] at hbody
  rw [hbody, Blockwise.run, hone]

/-- The registers that every message starts from. -/
def start : Regs := ⟨0x67452301, 0xefcdab89, 0x98badcfe, 0x10325476⟩

/-- A context after a message: the registers, the bytes that wait and the length in two words. -/
structure Holds (ctx : Ctx) (m : List Byte) : Prop where
  length_buffer : ctx.buffer.length = 64
  lo : ctx.lo.toNat = m.length % 2 ^ 29
  hi : ctx.hi.toNat = m.length / 2 ^ 29 % 2 ^ 32
  fed : (ctx.regs, ctx.buffer.take (m.length % 64)) = rfcBlocks.feed (start, []) m

theorem holds_init {ctx : Ctx} (hbuf : ctx.buffer.length = 64) : Holds (init ctx) [] where
  length_buffer := hbuf
  lo := rfl
  hi := rfl
  fed := rfl

theorem length_copyAt {α : Type} {dst src : List α} {offset : ℕ} (h : offset + src.length ≤ dst.length) :
    (copyAt dst offset src).length = dst.length := by
  rw [copyAt, List.length_append, List.length_append, List.length_take, List.length_drop]
  omega

/-- What is copied to the end of what is there. -/
theorem take_copyAt {α : Type} {dst src : List α} {offset n : ℕ} (h : offset + src.length ≤ dst.length)
    (hn : n = offset + src.length) : (copyAt dst offset src).take n = dst.take offset ++ src := by
  have hlen : (dst.take offset ++ src).length = n := by
    rw [List.length_append, List.length_take]
    omega
  rw [copyAt, ← hlen, List.take_left]

/-- The words of the counter after a piece. -/
theorem count_spec {ctx : Ctx} {n k : ℕ} (hlo : ctx.lo.toNat = n % 2 ^ 29) (hhi : ctx.hi.toNat = n / 2 ^ 29 % 2 ^ 32)
    (hk : k < 2 ^ 64) : (ctx.count (BitVec.ofNat 64 k)).lo.toNat = (n + k) % 2 ^ 29 ∧
      (ctx.count (BitVec.ofNat 64 k)).hi.toNat = (n + k) / 2 ^ 29 % 2 ^ 32 := by
  have hmask (x : BitVec 64) : (x &&& 0x1fffffff).toNat = x.toNat % 2 ^ 29 := by
    rw [BitVec.toNat_and, ← Nat.and_two_pow_sub_one_eq_mod]
    rfl
  have hlo' : (ctx.count (BitVec.ofNat 64 k)).lo.toNat = (n + k) % 2 ^ 29 := by
    rw [Ctx.count, BitVec.toNat_setWidth, hmask, BitVec.toNat_add, BitVec.toNat_setWidth, BitVec.toNat_ofNat, hlo]
    omega
  have hshift : ((BitVec.ofNat 64 k >>> 29).setWidth 32 : U32).toNat = k / 2 ^ 29 % 2 ^ 32 := by
    rw [BitVec.toNat_setWidth, BitVec.toNat_ushiftRight, BitVec.toNat_ofNat, Nat.shiftRight_eq_div_pow,
      Nat.mod_eq_of_lt hk]
  -- the low word has wrapped around exactly when it is less than it was
  have hcarry : (if (ctx.count (BitVec.ofNat 64 k)).lo < ctx.lo then ctx.hi + 1 else ctx.hi).toNat =
      (n / 2 ^ 29 + (if (n + k) % 2 ^ 29 < n % 2 ^ 29 then 1 else 0)) % 2 ^ 32 := by
    have hlt : (ctx.count (BitVec.ofNat 64 k)).lo < ctx.lo ↔ (n + k) % 2 ^ 29 < n % 2 ^ 29 := by
      rw [BitVec.lt_def, hlo', hlo]
    by_cases h : (n + k) % 2 ^ 29 < n % 2 ^ 29
    · rw [if_pos (hlt.mpr h), if_pos h, BitVec.toNat_add, hhi]
      exact Nat.mod_add_mod _ _ _
    · rw [if_neg (mt hlt.mp h), if_neg h, hhi, Nat.add_zero]
  have hhi' : (ctx.count (BitVec.ofNat 64 k)).hi.toNat =
      ((n / 2 ^ 29 + (if (n + k) % 2 ^ 29 < n % 2 ^ 29 then 1 else 0)) % 2 ^ 32 + k / 2 ^ 29 % 2 ^ 32) % 2 ^ 32 := by
    rw [← hcarry, ← hshift, ← BitVec.toNat_add]
    rfl
  refine ⟨hlo', ?_⟩
  rw [hhi']
  split_ifs <;> omega

/-- Whole blocks, and the rest to the front of the buffer. -/
theorem updateBlocks_spec {ctx : Ctx} (hbuf : ctx.buffer.length = 64) (data : List Byte) :
    (updateBlocks ctx data).lo = ctx.lo ∧ (updateBlocks ctx data).hi = ctx.hi ∧
      (updateBlocks ctx data).buffer.length = 64 ∧
      ((updateBlocks ctx data).regs, (updateBlocks ctx data).buffer.take (data.length % 64)) =
        rfcBlocks.feed (ctx.regs, []) data := by
  rw [Blockwise.feed, List.nil_append]
  have hrest := rfcBlocks.length_rest data
  rw [rfcBlocks_size] at hrest
  have hfits : 0 + (rfcBlocks.rest data).length ≤ ctx.buffer.length := by
    rw [hrest, hbuf, Nat.zero_add]
    exact (Nat.mod_lt _ (by decide)).le
  have htake : (copyAt ctx.buffer 0 (rfcBlocks.rest data)).take (data.length % 64) = rfcBlocks.rest data := by
    rw [take_copyAt hfits (by rw [hrest, Nat.zero_add]), List.take_zero, List.nil_append]
  rw [updateBlocks]
  split_ifs with hle
  · have hpos : 0 < data.length / 64 := Nat.div_pos hle (by decide)
    simp only [body_eq _ _ hpos]
    exact ⟨trivial, trivial, (length_copyAt hfits).trans hbuf, congrArg _ htake⟩
  · have hlt : data.length < rfcBlocks.size := Nat.lt_of_not_le hle
    rw [rfcBlocks.rest_of_lt hlt] at hfits htake
    rw [rfcBlocks.rest_of_lt hlt, rfcBlocks.run_of_lt hlt]
    exact ⟨rfl, rfl, (length_copyAt hfits).trans hbuf, congrArg _ htake⟩

theorem Holds.used {ctx : Ctx} {m : List Byte} (h : Holds ctx m) : (ctx.lo &&& 0x3f).toNat = m.length % 64 := by
  have hmask : (ctx.lo &&& 0x3f).toNat = ctx.lo.toNat % 2 ^ 6 := by
    rw [BitVec.toNat_and, ← Nat.and_two_pow_sub_one_eq_mod]
    rfl
  rw [hmask, h.lo]
  exact Nat.mod_mod_of_dvd _ (by decide)

/-- A block that the data fills, behind what is in the buffer. -/
theorem fill_buffer {buffer data : List Byte} (hbuf : buffer.length = 64) {used : ℕ} (hused : used < 64)
    (hle : 64 - used ≤ data.length) :
    copyAt buffer used (data.take (64 - used)) = buffer.take used ++ data.take (64 - used) := by
  have hlen : (data.take (64 - used)).length = 64 - used := by
    rw [List.length_take, Nat.min_eq_left hle]
  rw [copyAt, hlen, List.drop_eq_nil_of_le (by omega), List.append_nil]

/-- **One more piece**, whatever its length. -/
theorem update_spec {ctx : Ctx} {m data : List Byte} (h : Holds ctx m) (hsize : data.length < 2 ^ 64) :
    Holds (update ctx data) (m ++ data) := by
  obtain ⟨hlo, hhi⟩ := count_spec h.lo h.hi hsize
  rw [← List.length_append] at hlo hhi
  have hfeed : rfcBlocks.feed (start, []) (m ++ data) =
      rfcBlocks.feed (ctx.regs, ctx.buffer.take (m.length % 64)) data := by
    rw [h.fed, Blockwise.feed_feed]
  have hlt : m.length % 64 < 64 := Nat.mod_lt _ (by decide)
  have htake : (ctx.buffer.take (m.length % 64)).length = m.length % 64 := by
    rw [List.length_take, h.length_buffer, Nat.min_eq_left hlt.le]
  have hregs : (ctx.count (BitVec.ofNat 64 data.length)).regs = ctx.regs := rfl
  have hbuf : (ctx.count (BitVec.ofNat 64 data.length)).buffer = ctx.buffer := rfl
  simp only [update, h.used, hregs, hbuf]
  generalize ctx.count (BitVec.ofNat 64 data.length) = c at *
  -- the three ways of the source: the data does not fill the block; it does; there is no block to fill
  split_ifs with hne hshort
  · have hfits : m.length % 64 + data.length ≤ ctx.buffer.length := by
      rw [h.length_buffer]
      omega
    have hlen : (m ++ data).length % 64 = m.length % 64 + data.length := by
      rw [List.length_append]
      omega
    refine ⟨(length_copyAt hfits).trans h.length_buffer, hlo, hhi, ?_⟩
    rw [hfeed, Blockwise.feed_short _ (by rw [htake, rfcBlocks_size]; omega), hlen, take_copyAt hfits rfl]
  · have hle : 64 - m.length % 64 ≤ data.length := Nat.le_of_not_lt hshort
    rw [fill_buffer h.length_buffer hlt hle]
    have hblock : (ctx.buffer.take (m.length % 64) ++ data.take (64 - m.length % 64)).length = 64 := by
      rw [List.length_append, htake, List.length_take]
      omega
    have hlen : (m ++ data).length % 64 = (data.drop (64 - m.length % 64)).length % 64 := by
      rw [List.length_append, List.length_drop]
      omega
    have hsize' : rfcBlocks.size ≤ (ctx.buffer.take (m.length % 64)).length + data.length := by
      rw [htake, rfcBlocks_size]
      omega
    have hfill := rfcBlocks.feed_fill (s := ctx.regs) (htake.le.trans hlt.le) hsize'
    rw [htake, rfcBlocks_size, ← rfcBlocks.run_one hblock, ← body_one hblock] at hfill
    obtain ⟨hl, hh, hb, hf⟩ := @updateBlocks_spec ⟨c.lo, c.hi, _, _⟩ hblock (data.drop (64 - m.length % 64))
    refine ⟨hb, (congrArg _ hl).trans hlo, (congrArg _ hh).trans hhi, ?_⟩
    rw [hlen, hf, hfeed, hfill]
  · have hzero : m.length % 64 = 0 := not_not.mp hne
    have hlen : (m ++ data).length % 64 = data.length % 64 := by
      rw [List.length_append]
      omega
    obtain ⟨hl, hh, hb, hf⟩ := updateBlocks_spec (hbuf ▸ h.length_buffer) data
    refine ⟨hb, (congrArg _ hl).trans hlo, (congrArg _ hh).trans hhi, ?_⟩
    rw [hlen, hf, hfeed, hzero, List.take_zero, hregs]

/-! ## The end of the message -/

theorem length_wordBytes (x : U32) : (wordBytes x).length = 4 := rfl

theorem wordBytes_eq_leBytes (x : U32) : wordBytes x = leBytes 4 x.toNat := by
  have hbyte (i : ℕ) : (x >>> (8 * i)).setWidth 8 = BitVec.ofNat 8 (x.toNat / 256 ^ i) := by
    apply BitVec.eq_of_toNat_eq
    rw [BitVec.toNat_setWidth, BitVec.toNat_ushiftRight, BitVec.toNat_ofNat, Nat.shiftRight_eq_div_pow, pow_mul]
    norm_num
  rw [leBytes, show List.range 4 = [0, 1, 2, 3] from rfl]
  simp only [List.map_cons, List.map_nil, ← hbyte]
  rfl

theorem leBytes_eight (n : ℕ) : leBytes 8 n = leBytes 4 (n % 2 ^ 32) ++ leBytes 4 (n / 2 ^ 32 % 2 ^ 32) := by
  have hlow {i : ℕ} (hi : i < 4) (k : ℕ) : BitVec.ofNat 8 (k % 2 ^ 32 / 256 ^ i) = BitVec.ofNat 8 (k / 256 ^ i) := by
    apply BitVec.eq_of_toNat_eq
    rw [BitVec.toNat_ofNat, BitVec.toNat_ofNat]
    interval_cases i <;> norm_num <;> omega
  rw [leBytes, leBytes, leBytes, show List.range 8 = List.range 4 ++ (List.range 4).map (· + 4) from rfl,
    List.map_append, List.map_map]
  congr 1
  · apply List.map_congr_left
    intro i hi
    exact (hlow (List.mem_range.mp hi) n).symm
  · apply List.map_congr_left
    intro i hi
    rw [hlow (List.mem_range.mp hi), Nat.div_div_eq_div_mul, Function.comp_apply, pow_add, Nat.mul_comm]
    norm_num

/-- The last eight bytes are the length in bits, modulo 2^64. -/
theorem length_bytes {lo hi : U32} {n : ℕ} (hlo : lo.toNat = n % 2 ^ 29) (hhi : hi.toNat = n / 2 ^ 29 % 2 ^ 32) :
    wordBytes (lo <<< 3) ++ wordBytes hi = leBytes 8 (8 * n) := by
  have hshift : (lo <<< 3).toNat = 8 * n % 2 ^ 32 := by
    rw [BitVec.toNat_shiftLeft, Nat.shiftLeft_eq, hlo]
    omega
  have hhigh : 8 * n / 2 ^ 32 % 2 ^ 32 = hi.toNat := by omega
  rw [leBytes_eight, hhigh, ← hshift, wordBytes_eq_leBytes, wordBytes_eq_leBytes]

/-- The last block: what waits, zeros, and the length. -/
theorem finalBlock_spec {ctx : Ctx} (hbuf : ctx.buffer.length = 64) {used : ℕ} (hused : used ≤ 56) :
    finalBlock ctx used =
      (rfcBlocks.run ctx.regs (ctx.buffer.take used ++ List.replicate (56 - used) (0 : Byte) ++
        (wordBytes (ctx.lo <<< 3) ++ wordBytes ctx.hi))).result := by
  have hzeros : used + (List.replicate (56 - used) (0 : Byte)).length ≤ ctx.buffer.length := by
    rw [List.length_replicate, hbuf]
    omega
  have hfirst := (length_copyAt hzeros).trans hbuf
  have htake := take_copyAt hzeros (n := 56) (by rw [List.length_replicate]; omega)
  have hlen : (ctx.buffer.take used ++ List.replicate (56 - used) (0 : Byte) ++
      (wordBytes (ctx.lo <<< 3) ++ wordBytes ctx.hi)).length = 64 := by
    rw [← htake, List.length_append, List.length_append, List.length_take, hfirst, length_wordBytes, length_wordBytes]
    decide
  have hzero : 64 - used - 8 = 56 - used := by omega
  rw [finalBlock, hzero]
  generalize copyAt ctx.buffer used (List.replicate (56 - used) (0 : Byte)) = buffer at hfirst htake
  -- the two words of the length, one after the other
  have hlo : 56 + (wordBytes (ctx.lo <<< 3)).length ≤ buffer.length := by
    rw [hfirst, length_wordBytes]
    decide
  have hsecond := (length_copyAt hlo).trans hfirst
  have hbuffer : copyAt (copyAt buffer 56 (wordBytes (ctx.lo <<< 3))) 60 (wordBytes ctx.hi) =
      ctx.buffer.take used ++ List.replicate (56 - used) (0 : Byte) ++
        (wordBytes (ctx.lo <<< 3) ++ wordBytes ctx.hi) := by
    rw [copyAt, take_copyAt hlo (n := 60) rfl, htake, List.drop_eq_nil_of_le (by rw [hsecond, length_wordBytes]),
      List.append_nil, List.append_assoc]
  rw [hbuffer, body_one hlen]

theorem take_set_succ {α : Type} {l : List α} {n : ℕ} (hn : n < l.length) (a : α) :
    (l.set n a).take (n + 1) = l.take n ++ [a] := by
  have hlen : (l.take n ++ [a]).length = n + 1 := by
    rw [List.length_append, List.length_take, Nat.min_eq_left hn.le]
    rfl
  rw [List.set_eq_take_append_cons_drop, if_pos hn, ← List.singleton_append, ← List.append_assoc, ← hlen,
    List.take_left]

theorem result_eq (r : Regs) : r.result = [r.a, r.b, r.c, r.d].flatMap fun x => leBytes 4 x.toNat := by
  simp only [Regs.result, wordBytes_eq_leBytes, List.flatMap_cons, List.flatMap_nil, List.append_nil,
    List.append_assoc]

/-- **The padding**, made in the buffer, in one block or in two. -/
theorem final_spec {ctx : Ctx} {m : List Byte} (h : Holds ctx m) : final ctx = rfc1321 m := by
  obtain ⟨hregs, hrest⟩ := Prod.mk.inj h.fed
  rw [List.nil_append] at hregs hrest
  have hlt : m.length % 64 < 64 := Nat.mod_lt _ (by decide)
  have hlen : (ctx.buffer.set (m.length % 64) 0x80).length = 64 := by
    rw [List.length_set, h.length_buffer]
  have htake := take_set_succ (hlt.trans_eq h.length_buffer.symm) (0x80 : Byte)
  have hbytes := length_bytes h.lo h.hi
  have hpad : rfcBlocks.run start (rfcPad m) =
      rfcBlocks.run ctx.regs ((ctx.buffer.set (m.length % 64) 0x80).take (m.length % 64 + 1) ++
        List.replicate ((119 - m.length % 64) % 64) 0 ++ leBytes 8 (8 * m.length)) := by
    rw [rfcPad, List.append_assoc, Blockwise.run_append, ← hregs, htake, hrest]
    simp only [List.append_assoc, List.cons_append, List.nil_append]
  rw [rfc1321, show (⟨0x67452301, 0xefcdab89, 0x98badcfe, 0x10325476⟩ : Regs) = start from rfl, hpad, ← result_eq]
  simp only [final, h.used]
  split_ifs with havail
  · -- the length does not fit: the block is filled with zeros, and another follows
    have hzeros : m.length % 64 + 1 + (List.replicate (64 - (m.length % 64 + 1)) (0 : Byte)).length ≤
        (ctx.buffer.set (m.length % 64) 0x80).length := by
      rw [List.length_replicate, hlen]
      omega
    have hblock := length_copyAt hzeros
    have hfull := List.take_of_length_le (hblock.trans hlen).le
    rw [take_copyAt hzeros (by rw [List.length_replicate]; omega)] at hfull
    have hsplit : (119 - m.length % 64) % 64 = 64 - (m.length % 64 + 1) + 56 := by omega
    rw [finalBlock_spec (hblock.trans hlen) (Nat.zero_le 56), List.take_zero, List.nil_append, hbytes,
      body_one (hblock.trans hlen), hsplit, ← List.replicate_append_replicate, ← List.append_assoc, hfull,
      List.append_assoc, rfcBlocks.run_block (hblock.trans hlen), rfcBlocks.run_one (hblock.trans hlen)]
  · have hsplit : (119 - m.length % 64) % 64 = 56 - (m.length % 64 + 1) := by omega
    rw [finalBlock_spec hlen (by omega), hbytes, hsplit]

theorem holds_pieces {ctx : Ctx} {m : List Byte} (h : Holds ctx m) {pieces : List (List Byte)}
    (hsize : ∀ data ∈ pieces, data.length < 2 ^ 64) : Holds (pieces.foldl update ctx) (m ++ pieces.flatten) := by
  induction pieces generalizing ctx m with
  | nil => rwa [List.flatten_nil, List.append_nil]
  | cons data pieces ih =>
    rw [List.forall_mem_cons] at hsize
    rw [List.foldl_cons, List.flatten_cons, ← List.append_assoc]
    exact ih (update_spec h hsize.1) hsize.2

/-- **MD5 is MD5**: the digest of the message, for any way of feeding it to the context. -/
theorem md5_pieces {ctx : Ctx} (hbuf : ctx.buffer.length = 64) {pieces : List (List Byte)}
    (hsize : ∀ data ∈ pieces, data.length < 2 ^ 64) :
    final (pieces.foldl update (init ctx)) = rfc1321 pieces.flatten :=
  final_spec (holds_pieces (holds_init hbuf) hsize)

theorem md5_pieces_abc :
    final ([[0x61], [], [0x62, 0x63]].foldl update (init ⟨1, 2, start, List.replicate 64 7⟩)) =
      rfc1321 [0x61, 0x62, 0x63] :=
  md5_pieces (List.length_replicate ..) (by decide)

/-- The digest of "abc" in RFC 1321. -/
example : rfc1321 [0x61, 0x62, 0x63] =
    [0x90, 0x01, 0x50, 0x98, 0x3c, 0xd2, 0x4f, 0xb0, 0xd6, 0x96, 0x3f, 0x7d, 0x28, 0xe1, 0x7f, 0x72] := by
  decide +kernel

end Md5

/-- The digest that the control plane is told is that of the whole configuration. -/
theorem getConfigMd5_spec {cxt : Md5.Ctx} (hbuf : cxt.buffer.length = 64) {current_config : List Byte}
    (hsize : current_config.length < 2 ^ 64) : getConfigMd5 cxt current_config = Md5.rfc1321 current_config :=
  Md5.final_spec (Md5.update_spec (Md5.holds_init hbuf) hsize)

end Bm
