/-
# Parameters on the command line

`parse_param` (`runtime_CLI.py`): a parameter of a table entry is written as a number
or, for the widths of addresses, as an address.  `int()` is modelled as its
documentation has it; `IPv6Address` is a parameter.

* `intToBytes_eq`: what `int_to_bytes` returns;
* `pyInt_of_digits`: `int()` reads digits as one expects;
* `forall_of_pyInt`: the characters that `int()` accepts;
* `parseParam_right_iff`: when the result is right.
-/
import Bmv2.Lib.Bytes

namespace Bm

/-! ## `int()` -/

/-- `isspace`. -/
def isBlank (c : Char) : Bool := c = ' ' || (9 ≤ c.toNat && c.toNat ≤ 13)

/-- `strip`. -/
def strip (s : List Char) : List Char :=
  ((s.dropWhile isBlank).reverse.dropWhile isBlank).reverse

/-- The value of a digit; 36 for all other characters. -/
def digitVal (c : Char) : ℕ :=
  if 48 ≤ c.toNat ∧ c.toNat ≤ 57 then c.toNat - 48
  else if 97 ≤ c.toNat ∧ c.toNat ≤ 122 then c.toNat - 87
  else if 65 ≤ c.toNat ∧ c.toNat ≤ 90 then c.toNat - 55
  else 36

/-- The value of a string of digits. -/
def digitsVal (base : ℕ) (cs : List Char) : Option ℕ :=
  if cs ≠ [] ∧ cs.all fun c => digitVal c < base then
    some (cs.foldl (fun v c => v * base + digitVal c) 0)
  else none

/-- The base that the second character of a literal stands for. -/
def prefixBase (c : Char) : Option ℕ :=
  if c = 'x' ∨ c = 'X' then some 16
  else if c = 'o' ∨ c = 'O' then some 8
  else if c = 'b' ∨ c = 'B' then some 2
  else none

/-- An integer literal; in base 0 the literal tells the base. -/
def literalVal (base : ℕ) : List Char → Option ℕ
  | z :: c :: ds =>
      if z = '0' then
        match prefixBase c with
        | some b => if base = 0 ∨ base = b then digitsVal b ds else digitsVal base (z :: c :: ds)
        | none => digitsVal (if base = 0 then 8 else base) (z :: c :: ds)
      else digitsVal (if base = 0 then 10 else base) (z :: c :: ds)
  | cs => digitsVal (if base = 0 then 10 else base) cs

/-- `int(s, base)`; `none` when it raises an exception. -/
def pyInt (base : ℕ) (s : List Char) : Option ℤ :=
  match strip s with
  | '-' :: cs => (literalVal base cs).map fun v : ℕ => -(v : ℤ)
  | '+' :: cs => (literalVal base cs).map fun v : ℕ => (v : ℤ)
  | cs => (literalVal base cs).map fun v : ℕ => (v : ℤ)

/-! ## The encodings -/

/-- The exceptions. -/
inductive ParamError where
  | formatExplore
  | badIPv4
  | badMac
  | badIPv6
  | badParam (info : String)
  deriving DecidableEq

/-- What `ipv4Addr_to_bytes` and `macAddr_to_bytes` share. -/
def addrToBytes (sep : Char) (n base : ℕ) (bad : ParamError) (addr : List Char) :
    Except ParamError (List ℤ) :=
  if sep ∉ addr then .error .formatExplore
  else
    let s := addr.splitOn sep
    if s.length ≠ n then .error bad
    else match s.mapM (pyInt base) with
      | some bytes => .ok bytes
      | none => .error bad

/-- `ipv4Addr_to_bytes`. -/
def ipv4AddrToBytes : List Char → Except ParamError (List ℤ) := addrToBytes '.' 4 10 .badIPv4

/-- `macAddr_to_bytes`. -/
def macAddrToBytes : List Char → Except ParamError (List ℤ) := addrToBytes ':' 6 16 .badMac

/-- `ipv6Addr_to_bytes`; `ipv6Address` gives the packed address. -/
def ipv6AddrToBytes (ipv6Address : List Char → Option (List Byte)) (addr : List Char) :
    Except ParamError (List ℤ) :=
  if ':' ∉ addr then .error .formatExplore
  else match ipv6Address addr with
    | some packed => .ok (packed.map fun b => (b.toNat : ℤ))
    | none => .error .badIPv6

/-- The loop `while i > 0` of `int_to_bytes`. -/
def intToBytesLoop (i num : ℤ) (byteArray : List ℤ) : ℤ × List ℤ :=
  if 0 < i then intToBytesLoop (i / 256) (num - 1) (byteArray ++ [i % 256]) else (num, byteArray)
termination_by i.toNat
decreasing_by omega

/-- `int_to_bytes`. -/
def intToBytes (i num : ℤ) : Except ParamError (List ℤ) :=
  let (num, byteArray) := intToBytesLoop i num []
  if num < 0 then .error (.badParam "Parameter is too large")
  else .ok (byteArray ++ List.replicate num.toNat 0).reverse

/-- What `parse_param` does with a string that is no address. -/
def parseAsInt (inputStr : List Char) (bitwidth : ℕ) : Except ParamError (List ℤ) :=
  match pyInt 0 inputStr with
  | none => .error (.badParam "Invalid input, could not cast to integer, try in hex with 0x prefix")
  | some input => intToBytes input ((bitwidth + 7) / 8 : ℕ)

/-- `parse_param`. -/
def parseParam (ipv6Address : List Char → Option (List Byte)) (inputStr : List Char)
    (bitwidth : ℕ) : Except ParamError (List ℤ) :=
  if bitwidth = 32 then
    match ipv4AddrToBytes inputStr with
    | .error .formatExplore => parseAsInt inputStr bitwidth
    | .error .badIPv4 => .error (.badParam "Invalid IPv4 address")
    | res => res
  else if bitwidth = 48 then
    match macAddrToBytes inputStr with
    | .error .formatExplore => parseAsInt inputStr bitwidth
    | .error .badMac => .error (.badParam "Invalid MAC address")
    | res => res
  else if bitwidth = 128 then
    match ipv6AddrToBytes ipv6Address inputStr with
    | .error .formatExplore => parseAsInt inputStr bitwidth
    | .error .badIPv6 => .error (.badParam "Invalid IPv6 address")
    | res => res
  else parseAsInt inputStr bitwidth

/-! ## What a parameter denotes -/

/-- The octets, in the order in which they are sent, are those of a number. -/
structure BigEndian (octets : List ℕ) (n v : ℕ) : Prop where
  length_eq : octets.length = n
  lt : ∀ o ∈ octets, o < 256
  value : Nat.ofDigits 256 octets.reverse = v

/-- `n` octets, written in digits of the base and separated. -/
structure WrittenAs (sep : Char) (n base : ℕ) (s : List Char) (octets : List ℕ) : Prop where
  parts : (s.splitOn sep).map (digitsVal base) = octets.map some
  length_eq : octets.length = n
  lt : ∀ o ∈ octets, o < 256

/-- The number or the address that a string denotes. -/
inductive Denotes (ipv6Address : List Char → Option (List Byte)) :
    ℕ → List Char → ℕ → Prop
  | int {w v : ℕ} {s : List Char} (h : pyInt 0 s = some (v : ℤ)) (hlt : v < 2 ^ w) :
      Denotes ipv6Address w s v
  | ipv4 {s : List Char} {octets : List ℕ} (h : WrittenAs '.' 4 10 s octets) :
      Denotes ipv6Address 32 s (Nat.ofDigits 256 octets.reverse)
  | mac {s : List Char} {octets : List ℕ} (h : WrittenAs ':' 6 16 s octets) :
      Denotes ipv6Address 48 s (Nat.ofDigits 256 octets.reverse)
  | ipv6 {s : List Char} {packed : List Byte} (h : ipv6Address s = some packed) :
      Denotes ipv6Address 128 s (Nat.ofDigits 256 (packed.map fun b => b.toNat).reverse)

/-- A string that denotes a number or an address is encoded, all others are turned away. -/
def IsRight (ipv6Address : List Char → Option (List Byte)) (bitwidth : ℕ) (inputStr : List Char) :
    Except ParamError (List ℤ) → Prop
  | .ok bytes => ∃ v octets, bytes = octets.map (fun o : ℕ => (o : ℤ)) ∧
      BigEndian octets ((bitwidth + 7) / 8) v ∧
      ∀ v', Denotes ipv6Address bitwidth inputStr v' ↔ v' = v
  | .error (.badParam _) => ∀ v, ¬ Denotes ipv6Address bitwidth inputStr v
  | .error _ => False

/-- The parts of an address that `int()` accepts are octets. -/
def PartsExact (sep : Char) (n base : ℕ) (s : List Char) : Prop :=
  (s.splitOn sep).length = n → (∀ part ∈ s.splitOn sep, (pyInt base part).isSome) →
    ∀ part ∈ s.splitOn sep, ∃ o, digitsVal base part = some o ∧ o < 256

/-- An address has exact parts; a number that fits into the bytes fits into the width and is not
negative. -/
def ParamExact (bitwidth : ℕ) (s : List Char) : Prop :=
  if bitwidth = 32 ∧ '.' ∈ s then PartsExact '.' 4 10 s
  else if bitwidth = 48 ∧ ':' ∈ s then PartsExact ':' 6 16 s
  else if bitwidth = 128 ∧ ':' ∈ s then True
  else ∀ i : ℤ, pyInt 0 s = some i → i < 2 ^ (8 * ((bitwidth + 7) / 8)) → 0 ≤ i ∧ i < 2 ^ bitwidth

/-! ## What `int()` accepts -/

/-- Digits are not blank. -/
theorem isBlank_eq_false {c : Char} (h : digitVal c < 36) : isBlank c = false := by
  unfold digitVal at h
  unfold isBlank
  have hspace : (' ' : Char).toNat = 32 := rfl
  by_cases hc : c = ' '
  · subst hc
    simp [hspace] at h
  · simp only [hc, decide_false, Bool.false_or, Bool.and_eq_false_iff, decide_eq_false_iff_not]
    split at h
    · omega
    · split at h
      · omega
      · split at h
        · omega
        · omega

/-- Blanks are taken off, and nothing else. -/
theorem mem_strip {s : List Char} {c : Char} (hc : c ∈ s) : isBlank c = true ∨ c ∈ strip s := by
  by_cases hblank : isBlank c = true
  · exact .inl hblank
  · have hkeep {s : List Char} (hc : c ∈ s) : c ∈ s.dropWhile isBlank := by
      rw [← List.takeWhile_append_dropWhile (p := isBlank) (l := s)] at hc
      rcases List.mem_append.mp hc with hc | hc
      · exact absurd (List.mem_takeWhile_imp hc) hblank
      · exact hc
    exact .inr (List.mem_reverse.mpr (hkeep (List.mem_reverse.mpr (hkeep hc))))

/-- A string without blanks is kept. -/
theorem strip_eq {s : List Char} (h : ∀ c ∈ s, isBlank c = false) : strip s = s := by
  have hkeep {s : List Char} (h : ∀ c ∈ s, isBlank c = false) : s.dropWhile isBlank = s := by
    cases s with
    | nil => rfl
    | cons c s => rw [List.dropWhile_cons, h c (by simp), if_neg (by simp)]
  rw [strip, hkeep h, hkeep fun c hc => h c (List.mem_reverse.mp hc), List.reverse_reverse]

theorem digitsVal_eq_some {base v : ℕ} {cs : List Char} : digitsVal base cs = some v ↔
    (cs ≠ [] ∧ ∀ c ∈ cs, digitVal c < base) ∧
      cs.foldl (fun v c => v * base + digitVal c) 0 = v := by
  have hall : (cs.all fun c => digitVal c < base) = true ↔ ∀ c ∈ cs, digitVal c < base := by simp
  unfold digitsVal
  rw [← hall]
  split
  · next h => rw [Option.some.injEq, and_iff_right h]
  · next h => simp only [h, false_and, reduceCtorEq]

/-- The characters of a prefix. -/
theorem digitVal_of_prefixBase {c : Char} {b : ℕ} (h : prefixBase c = some b) :
    b ≤ 16 ∧ digitVal c < 36 := by
  unfold prefixBase at h
  split at h
  · next hc => obtain rfl := Option.some.inj h; rcases hc with rfl | rfl <;> decide
  · split at h
    · next hc => obtain rfl := Option.some.inj h; rcases hc with rfl | rfl <;> decide
    · split at h
      · next hc => obtain rfl := Option.some.inj h; rcases hc with rfl | rfl <;> decide
      · cases h

/-- A prefix that could be a hexadecimal digit is that of binary numbers. -/
theorem prefixBase_of_lt {c : Char} {b : ℕ} (h : prefixBase c = some b) (hc : digitVal c < 16) :
    b = 2 := by
  unfold prefixBase at h
  split at h
  · next hx => rcases hx with rfl | rfl <;> exact absurd hc (by decide)
  · split at h
    · next ho => rcases ho with rfl | rfl <;> exact absurd hc (by decide)
    · split at h
      · exact (Option.some.inj h).symm
      · cases h

/-- All characters of a literal are digits of some base. -/
theorem forall_of_literalVal {base v : ℕ} (hbase : base ≤ 36) {cs : List Char}
    (h : literalVal base cs = some v) : ∀ c ∈ cs, digitVal c < 36 := by
  have hdigits {b : ℕ} (hb : b ≤ 36) {ds : List Char} (hds : digitsVal b ds = some v) :
      ∀ c ∈ ds, digitVal c < 36 := fun c hc =>
    ((digitsVal_eq_some.mp hds).1.2 c hc).trans_le hb
  have hif {b : ℕ} (hb : b ≤ 36) : (if base = 0 then b else base) ≤ 36 := by
    split
    · exact hb
    · exact hbase
  unfold literalVal at h
  split at h
  · next z c ds =>
    split at h
    · next hz =>
      split at h
      · next b hb =>
        split at h
        · subst hz
          intro c' hc'
          rcases List.mem_cons.mp hc' with rfl | hc'
          · decide
          · rcases List.mem_cons.mp hc' with rfl | hc'
            · exact (digitVal_of_prefixBase hb).2
            · exact hdigits ((digitVal_of_prefixBase hb).1.trans (by norm_num)) h c' hc'
        · exact hdigits hbase h
      · exact hdigits (hif (by norm_num)) h
    · exact hdigits (hif (by norm_num)) h
  · exact hdigits (hif (by norm_num)) h

/-- Blanks, signs and digits are all that `int()` accepts. -/
theorem forall_of_pyInt {base : ℕ} (hbase : base ≤ 36) {s : List Char} {i : ℤ}
    (h : pyInt base s = some i) :
    ∀ c ∈ s, isBlank c = true ∨ c = '-' ∨ c = '+' ∨ digitVal c < 36 := by
  intro c hc
  obtain hblank | hmem := mem_strip hc
  · exact .inl hblank
  · refine .inr ?_
    unfold pyInt at h
    split at h
    · next cs hs =>
      obtain ⟨v, hv, -⟩ := Option.map_eq_some_iff.mp h
      rw [hs] at hmem
      rcases List.mem_cons.mp hmem with rfl | hmem
      · exact .inl rfl
      · exact .inr (.inr (forall_of_literalVal hbase hv c hmem))
    · next cs hs =>
      obtain ⟨v, hv, -⟩ := Option.map_eq_some_iff.mp h
      rw [hs] at hmem
      rcases List.mem_cons.mp hmem with rfl | hmem
      · exact .inr (.inl rfl)
      · exact .inr (.inr (forall_of_literalVal hbase hv c hmem))
    · obtain ⟨v, hv, -⟩ := Option.map_eq_some_iff.mp h
      exact .inr (.inr (forall_of_literalVal hbase hv c hmem))

/-- What `int()` reads has no separator of an address. -/
theorem pyInt_eq_none {base : ℕ} (hbase : base ≤ 36) {s : List Char} {sep : Char}
    (hsep : sep = '.' ∨ sep = ':') (h : sep ∈ s) : pyInt base s = none := by
  rw [Option.eq_none_iff_forall_not_mem]
  intro i hi
  have hchar := forall_of_pyInt hbase hi sep h
  rcases hsep with rfl | rfl
  · revert hchar
    decide
  · revert hchar
    decide

/-- Digits are read as they are. -/
theorem pyInt_of_digits {base v : ℕ} (hbase : base = 10 ∨ base = 16) {cs : List Char}
    (h : digitsVal base cs = some v) : pyInt base cs = some (v : ℤ) := by
  obtain ⟨⟨hne, hdigits⟩, -⟩ := digitsVal_eq_some.mp h
  have hsmall (c : Char) (hc : c ∈ cs) : digitVal c < 16 := (hdigits c hc).trans_le (by omega)
  have hstrip : strip cs = cs := strip_eq fun c hc =>
    isBlank_eq_false ((hsmall c hc).trans (by norm_num))
  have hliteral : literalVal base cs = some v := by
    have hzero : base ≠ 0 := by omega
    unfold literalVal
    split
    · next z c ds =>
      split
      · split
        · next b hb =>
          obtain rfl := prefixBase_of_lt hb (hsmall c (by simp))
          rw [if_neg (by omega), h]
        · simpa only [if_neg hzero] using h
      · simpa only [if_neg hzero] using h
    · simpa only [if_neg hzero] using h
  unfold pyInt
  rw [hstrip]
  split
  · exact absurd (hsmall '-' (by simp)) (by decide)
  · exact absurd (hsmall '+' (by simp)) (by decide)
  · rw [hliteral]
    rfl

/-! ## The bytes of a number -/

/-- The loop takes off the digits in base 256, the lowest first. -/
theorem intToBytesLoop_eq (v : ℕ) (num : ℤ) (byteArray : List ℤ) :
    intToBytesLoop v num byteArray = (num - (Nat.digits 256 v).length,
      byteArray ++ (Nat.digits 256 v).map fun o : ℕ => (o : ℤ)) := by
  induction v using Nat.strong_induction_on generalizing num byteArray with
  | _ v ih =>
    rw [intToBytesLoop]
    by_cases hv : 0 < v
    · have hdiv : ((v : ℤ) / 256) = ((v / 256 : ℕ) : ℤ) := by omega
      have hmod : ((v : ℤ) % 256) = ((v % 256 : ℕ) : ℤ) := by omega
      rw [if_pos (by omega), hdiv, hmod, ih (v / 256) (by omega), Nat.digits_def' (by norm_num) hv]
      simp only [List.length_cons, List.map_cons, List.append_assoc, List.singleton_append,
        Prod.mk.injEq, and_true]
      omega
    · obtain rfl : v = 0 := by omega
      simp

/-- A number that is not negative is encoded if it fits into the bytes. -/
theorem intToBytes_eq (v n : ℕ) :
    (256 ^ n ≤ v → intToBytes v n = .error (.badParam "Parameter is too large")) ∧
    (v < 256 ^ n → ∃ octets, intToBytes v n = .ok (octets.map fun o : ℕ => (o : ℤ)) ∧
      BigEndian octets n v) := by
  have hfits := Nat.digits_length_le_iff (k := n) (show 1 < 256 by norm_num) v
  unfold intToBytes
  rw [intToBytesLoop_eq]
  dsimp only
  refine ⟨fun hle => if_pos ?_, fun hlt => ?_⟩
  · have hlong : ¬ (Nat.digits 256 v).length ≤ n := fun h => absurd (hfits.mp h) (not_lt.mpr hle)
    omega
  · have hlen := hfits.mpr hlt
    rw [if_neg (by omega)]
    refine ⟨(Nat.digits 256 v ++ List.replicate (n - (Nat.digits 256 v).length) 0).reverse, ?_, ?_⟩
    · rw [List.map_reverse, List.map_append, List.map_replicate,
        show ((n : ℤ) - (Nat.digits 256 v).length).toNat = n - (Nat.digits 256 v).length by omega]
      rfl
    · refine ⟨by simp [hlen], fun o ho => ?_, ?_⟩
      · rcases List.mem_append.mp (List.mem_reverse.mp ho) with ho | ho
        · exact Nat.digits_lt_base (by norm_num) ho
        · rw [List.eq_of_mem_replicate ho]
          norm_num
      · rw [List.reverse_reverse, Nat.ofDigits_append_replicate_zero, Nat.ofDigits_digits]

/-- A negative number becomes zero. -/
theorem intToBytes_of_neg {i : ℤ} (hi : i < 0) (n : ℕ) :
    intToBytes i n = .ok (List.replicate n 0) := by
  unfold intToBytes
  rw [intToBytesLoop, if_neg (by omega)]
  simp

/-! ## The bytes of an address -/

section Addresses

variable {sep : Char} {n base : ℕ} {s : List Char}

theorem mapM_eq_some_iff {α β : Type} {f : α → Option β} {xs : List α} {ys : List β} :
    xs.mapM f = some ys ↔ xs.map f = ys.map some := by
  induction xs generalizing ys with
  | nil => cases ys <;> simp
  | cons x xs ih =>
    cases hx : f x with
    | none => cases ys <;> simp [hx]
    | some y =>
      cases ys with
      | nil => cases hxs : xs.mapM f <;> simp [hx, hxs]
      | cons y' ys =>
        rw [List.map_cons, List.map_cons, hx, List.cons.injEq, Option.some.injEq, ← ih]
        cases hxs : xs.mapM f <;> simp [hx, hxs]

theorem exists_mapM {α β : Type} {f : α → Option β} {xs : List α} (h : ∀ x ∈ xs, (f x).isSome) :
    ∃ ys, xs.mapM f = some ys := by
  induction xs with
  | nil => exact ⟨[], rfl⟩
  | cons x xs ih =>
    obtain ⟨y, hy⟩ := Option.isSome_iff_exists.mp (h x (by simp))
    obtain ⟨ys, hys⟩ := ih fun x' hx' => h x' (by simp [hx'])
    exact ⟨y :: ys, by simp [hy, hys]⟩

/-- An address has separators. -/
theorem WrittenAs.mem {octets : List ℕ} (h : WrittenAs sep n base s octets) (hn : n ≠ 1) : sep ∈ s := by
  by_contra hsep
  have hone : s.splitOn sep = [s] := List.splitOnP_eq_singleton fun c hc =>
    beq_eq_false_iff_ne.mpr fun h => hsep (h ▸ hc)
  have hlen := congrArg List.length h.parts
  rw [hone, List.length_map, List.length_map, h.length_eq] at hlen
  exact hn hlen.symm

/-- The octets are read as they are. -/
theorem WrittenAs.map_pyInt {octets : List ℕ} (h : WrittenAs sep n base s octets)
    (hbase : base = 10 ∨ base = 16) :
    (s.splitOn sep).map (pyInt base) = (octets.map fun o : ℕ => (o : ℤ)).map some := by
  have hparts := h.parts
  generalize s.splitOn sep = parts at hparts ⊢
  clear h
  induction parts generalizing octets with
  | nil => cases octets <;> simp_all
  | cons part parts ih =>
    match octets with
    | [] => simp at hparts
    | o :: octets =>
      obtain ⟨hpart, hparts⟩ := List.cons.inj hparts
      rw [List.map_cons, pyInt_of_digits hbase hpart, ih hparts]
      rfl

/-- Parts that are octets are the octets of an address. -/
theorem PartsExact.exists_writtenAs (h : PartsExact sep n base s) (hlen : (s.splitOn sep).length = n)
    (hsome : ∀ part ∈ s.splitOn sep, (pyInt base part).isSome) :
    ∃ octets, WrittenAs sep n base s octets := by
  have hall := h hlen hsome
  refine ⟨(s.splitOn sep).map fun part => (digitsVal base part).getD 0, ?_, ?_, ?_⟩
  · rw [List.map_map]
    refine List.map_congr_left fun part hpart => ?_
    obtain ⟨o, ho, -⟩ := hall part hpart
    rw [Function.comp_apply, ho, Option.getD_some]
  · rw [List.length_map, hlen]
  · intro o ho
    obtain ⟨part, hpart, rfl⟩ := List.mem_map.mp ho
    obtain ⟨o, ho, hlt⟩ := hall part hpart
    rw [ho]
    exact hlt

/-- An address is turned away, or its parts are returned. -/
theorem addrToBytes_cases (hbase : base = 10 ∨ base = 16) (hsep : sep ∈ s) (bad : ParamError) :
    (addrToBytes sep n base bad s = .error bad ∧ PartsExact sep n base s ∧
      ∀ octets, ¬ WrittenAs sep n base s octets) ∨
    ∃ bytes, addrToBytes sep n base bad s = .ok bytes ∧
      (PartsExact sep n base s ↔ ∃ octets, WrittenAs sep n base s octets) ∧
      ∀ octets, WrittenAs sep n base s octets → bytes = octets.map fun o : ℕ => (o : ℤ) := by
  unfold addrToBytes
  rw [if_neg (not_not.mpr hsep)]
  dsimp only
  by_cases hlen : (s.splitOn sep).length = n
  · rw [if_neg (not_not.mpr hlen)]
    cases hbytes : (s.splitOn sep).mapM (pyInt base) with
    | none =>
      refine .inl ⟨rfl, fun _ hsome => ?_, fun octets h => ?_⟩
      · obtain ⟨bytes, hbytes'⟩ := exists_mapM hsome
        rw [hbytes'] at hbytes
        cases hbytes
      · rw [mapM_eq_some_iff.mpr (h.map_pyInt hbase)] at hbytes
        cases hbytes
    | some bytes =>
      refine .inr ⟨bytes, rfl, ⟨fun h => h.exists_writtenAs hlen fun part hpart => ?_, ?_⟩,
        fun octets h => ?_⟩
      · have hmem : pyInt base part ∈ bytes.map some :=
          mapM_eq_some_iff.mp hbytes ▸ List.mem_map_of_mem hpart
        obtain ⟨i, -, heq⟩ := List.mem_map.mp hmem
        rw [← heq]
        rfl
      · rintro ⟨octets, h⟩ - - part hpart
        have hmem : digitsVal base part ∈ octets.map some := h.parts ▸ List.mem_map_of_mem hpart
        obtain ⟨o, ho, heq⟩ := List.mem_map.mp hmem
        exact ⟨o, heq.symm, h.lt o ho⟩
      · rw [mapM_eq_some_iff.mpr (h.map_pyInt hbase)] at hbytes
        exact (Option.some.inj hbytes).symm
  · rw [if_pos hlen]
    refine .inl ⟨rfl, fun h => absurd h hlen, fun octets h => hlen ?_⟩
    have hcount := congrArg List.length h.parts
    rwa [List.length_map, List.length_map, h.length_eq] at hcount

end Addresses

/-! ## Parameters -/

section Params

variable {ipv6Address : List Char → Option (List Byte)} {w : ℕ} {s : List Char}

theorem WrittenAs.unique {sep : Char} {n base : ℕ} {octets octets' : List ℕ}
    (h : WrittenAs sep n base s octets) (h' : WrittenAs sep n base s octets') : octets = octets' :=
  List.map_injective_iff.mpr (Option.some_injective ℕ) (h.parts.symm.trans h'.parts)

/-- A string that can be no address denotes a number at most. -/
theorem denotes_iff_int (hipv6 : ∀ s packed, ipv6Address s = some packed → ':' ∈ s)
    (h4 : w = 32 → '.' ∉ s) (hmac : w = 48 → ':' ∉ s) (h6 : w = 128 → ':' ∉ s) (v : ℕ) :
    Denotes ipv6Address w s v ↔ pyInt 0 s = some (v : ℤ) ∧ v < 2 ^ w := by
  constructor
  · intro h
    cases h with
    | int h hlt => exact ⟨h, hlt⟩
    | ipv4 h => exact absurd (h.mem (by norm_num)) (h4 rfl)
    | mac h => exact absurd (h.mem (by norm_num)) (hmac rfl)
    | ipv6 h => exact absurd (hipv6 s _ h) (h6 rfl)
  · rintro ⟨h, hlt⟩
    exact .int h hlt

theorem denotes_iff_ipv4 (hsep : '.' ∈ s) (v : ℕ) : Denotes ipv6Address 32 s v ↔
    ∃ octets, WrittenAs '.' 4 10 s octets ∧ v = Nat.ofDigits 256 octets.reverse := by
  constructor
  · intro h
    cases h with
    | int h _ =>
      rw [pyInt_eq_none (by norm_num) (.inl rfl) hsep] at h
      cases h
    | ipv4 h => exact ⟨_, h, rfl⟩
  · rintro ⟨octets, h, rfl⟩
    exact .ipv4 h

theorem denotes_iff_mac (hsep : ':' ∈ s) (v : ℕ) : Denotes ipv6Address 48 s v ↔
    ∃ octets, WrittenAs ':' 6 16 s octets ∧ v = Nat.ofDigits 256 octets.reverse := by
  constructor
  · intro h
    cases h with
    | int h _ =>
      rw [pyInt_eq_none (by norm_num) (.inr rfl) hsep] at h
      cases h
    | mac h => exact ⟨_, h, rfl⟩
  · rintro ⟨octets, h, rfl⟩
    exact .mac h

theorem denotes_iff_ipv6 (hsep : ':' ∈ s) (v : ℕ) : Denotes ipv6Address 128 s v ↔
    ∃ packed, ipv6Address s = some packed ∧
      v = Nat.ofDigits 256 (packed.map fun b => b.toNat).reverse := by
  constructor
  · intro h
    cases h with
    | int h _ =>
      rw [pyInt_eq_none (by norm_num) (.inr rfl) hsep] at h
      cases h
    | ipv6 h => exact ⟨_, h, rfl⟩
  · rintro ⟨octets, h, rfl⟩
    exact .ipv6 h

/-- Numbers: only the bytes are counted, and a negative number is taken for zero. -/
theorem isRight_int_iff (hden : ∀ v : ℕ, Denotes ipv6Address w s v ↔
      pyInt 0 s = some (v : ℤ) ∧ v < 2 ^ w) :
    IsRight ipv6Address w s (parseAsInt s w) ↔
      ∀ i : ℤ, pyInt 0 s = some i → i < 2 ^ (8 * ((w + 7) / 8)) → 0 ≤ i ∧ i < 2 ^ w := by
  have hpow : 256 ^ ((w + 7) / 8) = 2 ^ (8 * ((w + 7) / 8)) := by rw [pow_mul]; norm_num
  have hround : 2 ^ w ≤ 2 ^ (8 * ((w + 7) / 8)) := Nat.pow_le_pow_right (by norm_num) (by omega)
  unfold parseAsInt
  cases hi : pyInt 0 s with
  | none =>
    refine iff_of_true (fun v hv => ?_) (by simp)
    rw [hden, hi] at hv
    cases hv.1
  | some i =>
    by_cases hneg : i < 0
    · dsimp only
      rw [intToBytes_of_neg hneg]
      refine iff_of_false ?_ fun h => ?_
      · rintro ⟨v, octets, -, -, hv⟩
        have hdenotes := (hden v).mp ((hv v).mpr rfl)
        have heq := Option.some.inj (hi.symm.trans hdenotes.1)
        omega
      · have hfits : i < 2 ^ (8 * ((w + 7) / 8)) := hneg.trans (by positivity)
        have hle := (h i rfl hfits).1
        omega
    · obtain ⟨v, rfl⟩ := Int.eq_ofNat_of_zero_le (not_lt.mp hneg)
      have hden' (v' : ℕ) : Denotes ipv6Address w s v' ↔ v' = v ∧ v < 2 ^ w := by
        rw [hden, hi, Option.some.injEq, Nat.cast_inj]
        constructor
        · rintro ⟨rfl, hlt⟩
          exact ⟨rfl, hlt⟩
        · rintro ⟨rfl, hlt⟩
          exact ⟨rfl, hlt⟩
      obtain ⟨hlarge, hsmall⟩ := intToBytes_eq v ((w + 7) / 8)
      rw [hpow] at hlarge hsmall
      by_cases hfits : v < 2 ^ (8 * ((w + 7) / 8))
      · obtain ⟨octets, hrun, hoctets⟩ := hsmall hfits
        dsimp only
        rw [hrun]
        constructor
        · rintro ⟨v', octets', -, -, hv⟩ i heq -
          obtain rfl := Option.some.inj heq
          exact ⟨Int.natCast_nonneg v, by exact_mod_cast ((hden' v').mp ((hv v').mpr rfl)).2⟩
        · intro h
          have hlt : v < 2 ^ w := by exact_mod_cast (h v rfl (by exact_mod_cast hfits)).2
          exact ⟨v, octets, rfl, hoctets, fun v' => by rw [hden', and_iff_left hlt]⟩
      · dsimp only
        rw [hlarge (not_lt.mp hfits)]
        refine iff_of_true (fun v' hv => ?_) fun i heq hlt => ?_
        · have hlt := ((hden' v').mp hv).2
          omega
        · obtain rfl := Option.some.inj heq
          exact absurd (by exact_mod_cast hlt) hfits

/-- Addresses. -/
theorem isRight_addr_iff {sep : Char} {n base : ℕ} (hbase : base = 10 ∨ base = 16) (hsep : sep ∈ s)
    (hn : n = (w + 7) / 8) (hden : ∀ v : ℕ, Denotes ipv6Address w s v ↔
      ∃ octets, WrittenAs sep n base s octets ∧ v = Nat.ofDigits 256 octets.reverse)
    (bad : ParamError) (info : String) {res : Except ParamError (List ℤ)}
    (hbad : addrToBytes sep n base bad s = .error bad → res = .error (.badParam info))
    (hok : ∀ bytes, addrToBytes sep n base bad s = .ok bytes → res = .ok bytes) :
    IsRight ipv6Address w s res ↔ PartsExact sep n base s := by
  obtain ⟨herror, hexact, hnone⟩ | ⟨bytes, hbytes, hiff, heq⟩ := addrToBytes_cases hbase hsep bad
  · rw [hbad herror]
    refine iff_of_true (fun v hv => ?_) hexact
    obtain ⟨octets, h, -⟩ := (hden v).mp hv
    exact hnone octets h
  · rw [hok bytes hbytes, hiff]
    constructor
    · rintro ⟨v, octets, -, -, hv⟩
      obtain ⟨octets, h, -⟩ := (hden v).mp ((hv v).mpr rfl)
      exact ⟨octets, h⟩
    · rintro ⟨octets, h⟩
      refine ⟨_, octets, heq octets h, ⟨h.length_eq.trans hn, h.lt, rfl⟩, fun v => ?_⟩
      rw [hden]
      constructor
      · rintro ⟨octets', h', rfl⟩
        rw [h.unique h']
      · rintro rfl
        exact ⟨octets, h, rfl⟩

/-- When `parse_param` is right: for an address, if the parts that `int()` accepts are octets, and
for a number, if it is not negative and fits into the width as soon as it fits into the bytes. -/
theorem parseParam_right_iff (hw : 0 < w)
    (hipv6 : ∀ s packed, ipv6Address s = some packed → packed.length = 16 ∧ ':' ∈ s) :
    IsRight ipv6Address w s (parseParam ipv6Address s w) ↔ ParamExact w s := by
  have hcolon (s : List Char) (packed : List Byte) (h : ipv6Address s = some packed) : ':' ∈ s :=
    (hipv6 s packed h).2
  unfold parseParam ParamExact
  by_cases h32 : w = 32
  · subst h32
    rw [if_pos rfl]
    by_cases hsep : '.' ∈ s
    · rw [if_pos ⟨rfl, hsep⟩]
      refine isRight_addr_iff (.inl rfl) hsep (by norm_num) (denotes_iff_ipv4 hsep) .badIPv4
        "Invalid IPv4 address" (fun h => ?_) fun bytes h => ?_
      · rw [show ipv4AddrToBytes s = _ from h]
      · rw [show ipv4AddrToBytes s = _ from h]
    · have hskip : ipv4AddrToBytes s = .error .formatExplore := if_pos hsep
      rw [if_neg fun h => hsep h.2, if_neg (by norm_num), if_neg (by norm_num), hskip]
      exact isRight_int_iff (denotes_iff_int hcolon (fun _ => hsep) (by norm_num) (by norm_num))
  rw [if_neg h32, if_neg (show ¬ (w = 32 ∧ '.' ∈ s) from fun h => h32 h.1)]
  by_cases h48 : w = 48
  · subst h48
    rw [if_pos rfl]
    by_cases hsep : ':' ∈ s
    · rw [if_pos ⟨rfl, hsep⟩]
      refine isRight_addr_iff (.inr rfl) hsep (by norm_num) (denotes_iff_mac hsep) .badMac
        "Invalid MAC address" (fun h => ?_) fun bytes h => ?_
      · rw [show macAddrToBytes s = _ from h]
      · rw [show macAddrToBytes s = _ from h]
    · have hskip : macAddrToBytes s = .error .formatExplore := if_pos hsep
      rw [if_neg fun h => hsep h.2, if_neg (by norm_num), hskip]
      exact isRight_int_iff (denotes_iff_int hcolon (by norm_num) (fun _ => hsep) (by norm_num))
  rw [if_neg h48, if_neg (show ¬ (w = 48 ∧ ':' ∈ s) from fun h => h48 h.1)]
  by_cases h128 : w = 128
  · subst h128
    rw [if_pos rfl]
    by_cases hsep : ':' ∈ s
    · rw [if_pos ⟨rfl, hsep⟩]
      unfold ipv6AddrToBytes
      rw [if_neg (not_not.mpr hsep)]
      cases hpacked : ipv6Address s with
      | none =>
        refine iff_of_true (fun v hv => ?_) trivial
        obtain ⟨packed, hsome, -⟩ := (denotes_iff_ipv6 hsep v).mp hv
        rw [hpacked] at hsome
        cases hsome
      | some packed =>
        refine iff_of_true ⟨_, packed.map fun b => b.toNat, ?_, ⟨?_, ?_, rfl⟩, fun v => ?_⟩ trivial
        · rw [List.map_map]
          rfl
        · rw [List.length_map, (hipv6 s packed hpacked).1]
        · intro o ho
          obtain ⟨b, -, rfl⟩ := List.mem_map.mp ho
          exact b.isLt
        · rw [denotes_iff_ipv6 hsep, hpacked]
          simp
    · have hskip : ipv6AddrToBytes ipv6Address s = .error .formatExplore := if_pos hsep
      rw [if_neg fun h => hsep h.2, hskip]
      exact isRight_int_iff (denotes_iff_int hcolon (by norm_num) (by norm_num) (fun _ => hsep))
  · rw [if_neg h128, if_neg (show ¬ (w = 128 ∧ ':' ∈ s) from fun h => h128 h.1)]
    exact isRight_int_iff (denotes_iff_int hcolon (fun h => absurd h h32) (fun h => absurd h h48)
      (fun h => absurd h h128))

/-- The largest number of nine bits. -/
theorem parseParam_right_iff_nine :
    IsRight (fun _ => none) 9 ['0', 'x', '1', 'f', 'f']
      (parseParam (fun _ => none) ['0', 'x', '1', 'f', 'f'] 9) := by
  have hvalue : pyInt 0 ['0', 'x', '1', 'f', 'f'] = some 511 := by decide
  have hexact : ParamExact 9 ['0', 'x', '1', 'f', 'f'] := by
    unfold ParamExact
    rw [if_neg (by decide), if_neg (by decide), if_neg (by decide)]
    intro i hi _
    obtain rfl := Option.some.inj (hvalue.symm.trans hi)
    norm_num
  exact (parseParam_right_iff (by norm_num) fun s packed h => absurd h (by simp)).mpr hexact

/-- A negative number is sent as zero. -/
theorem parseParam_negative :
    parseParam (fun _ => none) ['-', '5'] 16 = .ok [0, 0] ∧
      ¬ IsRight (fun _ => none) 16 ['-', '5'] (parseParam (fun _ => none) ['-', '5'] 16) := by
  have hvalue : pyInt 0 ['-', '5'] = some (-5) := by decide
  have hrun : parseParam (fun _ => none) ['-', '5'] 16 = .ok [0, 0] := by
    unfold parseParam parseAsInt
    rw [hvalue]
    exact intToBytes_of_neg (by norm_num) 2
  refine ⟨hrun, ?_⟩
  rw [hrun]
  rintro ⟨v, octets, -, -, hv⟩
  cases (hv v).mpr rfl with
  | int h hlt =>
    have heq : (-5 : ℤ) = v := Option.some.inj (hvalue.symm.trans h)
    omega

end Params

end Bm
