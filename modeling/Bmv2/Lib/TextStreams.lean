/-
# Text streams

Numbers and words that are written one after the other, each followed by a space, and read back.  A reader
is a program that takes characters from the front of a stream, and fails when what it needs is not there.

* `Reads`: the reader takes a text off the front of every stream, and spaces in front of it;
* `Reads.bind`: readers in sequence;
* `reads_nat`, `reads_int`, `reads_word`: what was written comes back;
* `Reads.loop`: a counted loop, with an invariant of what has been read;
* `Fails`: the reader fails on every stream with the text in front.
-/
import Bmv2.Lib.Bytes
import Bmv2.Lib.Words

namespace TextStream

/-- A program that reads from a stream. -/
abbrev Reader (X : Type) := StateT (List Char) Option X

/-- `isspace`, in the locale of C. -/
def space (c : Char) : Bool := c = ' ' || (9 ≤ c.toNat && c.toNat ≤ 13)

/-- A text, on a line of its own. -/
def line (w : List Char) : List Char := w ++ ['\n']

/-! ## Readers -/

/-- The next word. -/
def word : Reader (List Char) := fun s =>
  if (readWord space s).1 = [] then none else some (readWord space s)

/-- The next unsigned number: the digits up to the first other character. -/
def nat : Reader ℕ := fun s =>
  let s := s.dropWhile space
  let digits := s.takeWhile Char.isDigit
  if digits = [] then none else some (Nat.ofDigitChars 10 digits 0, s.dropWhile Char.isDigit)

/-- The next number, with its sign. -/
def int : Reader ℤ := fun s =>
  match s.dropWhile space with
  | '-' :: s =>
      if s.takeWhile Char.isDigit = [] then none
      else some (-(Nat.ofDigitChars 10 (s.takeWhile Char.isDigit) 0 : ℤ), s.dropWhile Char.isDigit)
  | s => (nat s).map fun r => ((r.1 : ℤ), r.2)

/-- A loop of `n` rounds. -/
def loop {S : Type} (step : S → Reader S) : ℕ → S → Reader S
  | 0, s => pure s
  | n + 1, s => do loop step n (← step s)

/-! ## Reading what was written -/

/-- The reader takes the text off the front of any stream, with the spaces in front of it, and may leave
spaces behind. -/
def Reads {X : Type} (r : Reader X) (text : List Char) (x : X) : Prop :=
  ∀ lead rest : List Char, (∀ c ∈ lead, space c = true) → ∃ lead' : List Char, (∀ c ∈ lead', space c = true) ∧
    r (lead ++ (text ++ rest)) = some (x, lead' ++ rest)

variable {X Y S : Type} {r : Reader X} {text text' : List Char} {x : X} {y : Y}

theorem reads_pure (x : X) : Reads (pure x) [] x := fun lead _ hlead => ⟨lead, hlead, rfl⟩

/-- **Readers in sequence.** -/
theorem Reads.bind (h : Reads r text x) {k : X → Reader Y} (hk : Reads (k x) text' y) :
    Reads (r >>= k) (text ++ text') y := by
  intro lead rest hlead
  obtain ⟨lead₁, hlead₁, hr⟩ := h lead (text' ++ rest) hlead
  obtain ⟨lead₂, hlead₂, hkx⟩ := hk lead₁ rest hlead₁
  refine ⟨lead₂, hlead₂, ?_⟩
  rw [List.append_assoc]
  change (r _).bind (fun p => k p.1 p.2) = _
  rw [hr]
  exact hkx

/-- The last reader of a sequence. -/
theorem Reads.bind_pure (h : Reads r text x) {k : X → Reader Y} (hk : k x = pure y) : Reads (r >>= k) text y := by
  have hseq := h.bind (k := k) (hk ▸ reads_pure y)
  rwa [List.append_nil] at hseq

/-- A step that does not read. -/
theorem Reads.of_lift {o : Option X} (ho : o = some x) {k : X → Reader Y} (hk : Reads (k x) text y) :
    Reads (liftM o >>= k) text y := by
  subst ho
  exact hk

theorem dropWhile_lead {lead : List Char} (hlead : ∀ c ∈ lead, space c = true) {w rest : List Char} {c : Char}
    (hc : space c = false) : (lead ++ (c :: w ++ rest)).dropWhile space = c :: w ++ rest := by
  rw [List.dropWhile_append_of_pos hlead, List.cons_append, List.dropWhile_cons_of_neg]
  rw [hc]
  exact Bool.false_ne_true

theorem space_newline : space '\n' = true := by decide

theorem not_space_of_isDigit {c : Char} (hc : c.isDigit = true) : space c = false := by
  rw [Char.isDigit_iff_toNat] at hc
  have hne : c ≠ ' ' := by
    rintro rfl
    exact absurd hc.1 (by decide)
  rw [space, Bool.or_eq_false_iff, decide_eq_false_iff_not, Bool.and_eq_false_iff, decide_eq_false_iff_not,
    decide_eq_false_iff_not]
  refine ⟨hne, .inr ?_⟩
  have : 48 ≤ c.toNat := hc.1
  omega

/-- **A word** comes back. -/
theorem reads_word {w : List Char} (hw : ∀ c ∈ w, space c = false) (hne : w ≠ []) : Reads word (line w) w := by
  intro lead rest hlead
  refine ⟨['\n'], by simpa using space_newline, ?_⟩
  have hread : readWord space (lead ++ (line w ++ rest)) = (w, ['\n'] ++ rest) := by
    rw [readWord_spaces lead hlead, line, List.append_assoc]
    exact readWord_append hw hne space_newline rest
  rw [word, hread, if_neg hne]

/-- The digits of a number, up to the end of its line. -/
theorem takeWhile_digits {w : List Char} (hw : ∀ c ∈ w, c.isDigit = true) (rest : List Char) :
    (line w ++ rest).takeWhile Char.isDigit = w ∧ (line w ++ rest).dropWhile Char.isDigit = ['\n'] ++ rest := by
  rw [line, List.append_assoc, List.takeWhile_append_of_pos hw, List.dropWhile_append_of_pos hw]
  exact ⟨List.append_nil w, rfl⟩

theorem isDigit_toDigits (n : ℕ) : ∀ c ∈ Nat.toDigits 10 n, c.isDigit = true :=
  fun _ hc => Nat.isDigit_of_mem_toDigits (by decide) le_rfl hc

/-- **An unsigned number** comes back. -/
theorem reads_nat (n : ℕ) : Reads nat (line (Nat.toDigits 10 n)) n := by
  intro lead rest hlead
  refine ⟨['\n'], by simpa using space_newline, ?_⟩
  obtain ⟨c, w, hcw⟩ : ∃ c w, Nat.toDigits 10 n = c :: w := List.exists_cons_of_ne_nil Nat.toDigits_ne_nil
  have hdigits := isDigit_toDigits n
  have hdrop : (lead ++ (line (Nat.toDigits 10 n) ++ rest)).dropWhile space =
      line (Nat.toDigits 10 n) ++ rest := by
    rw [hcw, line, List.cons_append]
    exact dropWhile_lead hlead (not_space_of_isDigit (hdigits c (by simp [hcw])))
  obtain ⟨htake, hrest⟩ := takeWhile_digits hdigits rest
  rw [nat]
  simp only [hdrop, htake, hrest]
  rw [if_neg (by simp [hcw]), Nat.ofDigitChars_toDigits (by decide) le_rfl]

/-- The digits of a number, with its sign. -/
def intDigits : ℤ → List Char
  | .ofNat n => Nat.toDigits 10 n
  | .negSucc n => '-' :: Nat.toDigits 10 (n + 1)

/-- **A number** comes back. -/
theorem reads_int (z : ℤ) : Reads int (line (intDigits z)) z := by
  intro lead rest hlead
  cases z with
  | ofNat n =>
    obtain ⟨lead', hlead', hnat⟩ := reads_nat n [] rest (by simp)
    refine ⟨lead', hlead', ?_⟩
    obtain ⟨c, w, hcw⟩ : ∃ c w, Nat.toDigits 10 n = c :: w := List.exists_cons_of_ne_nil Nat.toDigits_ne_nil
    have hc := isDigit_toDigits n c (by simp [hcw])
    have hdrop : (lead ++ (line (Nat.toDigits 10 n) ++ rest)).dropWhile space =
        line (Nat.toDigits 10 n) ++ rest := by
      rw [hcw, line, List.cons_append]
      exact dropWhile_lead hlead (not_space_of_isDigit hc)
    rw [List.nil_append] at hnat
    rw [intDigits, int, hdrop]
    have hne : c ≠ '-' := by
      rintro rfl
      exact absurd hc (by decide)
    rw [hcw, line, List.cons_append] at hnat ⊢
    split
    · rename_i heq
      exact absurd (List.cons.inj heq).1 hne
    · rw [List.cons_append] at hnat ⊢
      rw [hnat]
      rfl
  | negSucc n =>
    refine ⟨['\n'], by simpa using space_newline, ?_⟩
    obtain ⟨htake, hrest⟩ := takeWhile_digits (isDigit_toDigits (n + 1)) rest
    have hdrop : (lead ++ (line (intDigits (.negSucc n)) ++ rest)).dropWhile space =
        '-' :: (line (Nat.toDigits 10 (n + 1)) ++ rest) := by
      rw [intDigits, line, List.cons_append]
      exact dropWhile_lead hlead (by decide)
    rw [int, hdrop]
    change (if (line (Nat.toDigits 10 (n + 1)) ++ rest).takeWhile Char.isDigit = [] then none else some _) = _
    rw [htake, hrest, if_neg Nat.toDigits_ne_nil, Nat.ofDigitChars_toDigits (by decide) le_rfl]
    rfl

/-- **A counted loop.**  `I` says what the state is after some of the texts have been read. -/
theorem Reads.loop (step : S → Reader S) (write : X → List Char) {I : List X → S → Prop} {s : S} (xs : List X)
    (hstep : ∀ done x todo s, xs = done ++ x :: todo → I done s →
      ∃ s', Reads (step s) (write x) s' ∧ I (done ++ [x]) s') (hs : I [] s) :
    ∃ s', Reads (TextStream.loop step xs.length s) (xs.flatMap write) s' ∧ I xs s' := by
  -- by induction on what is left, with what is done in front of it
  have hrest : ∀ todo done s, xs = done ++ todo → I done s →
      ∃ s', Reads (TextStream.loop step todo.length s) (todo.flatMap write) s' ∧ I xs s' := by
    intro todo
    induction todo with
    | nil =>
      intro done s hxs hI
      rw [List.append_nil] at hxs
      exact ⟨s, reads_pure s, hxs ▸ hI⟩
    | cons x todo ih =>
      intro done s hxs hI
      obtain ⟨s₁, hread, hI₁⟩ := hstep done x todo s hxs hI
      obtain ⟨s₂, hreads, hI₂⟩ := ih (done ++ [x]) s₁ (by simp [hxs]) hI₁
      exact ⟨s₂, hread.bind hreads, hI₂⟩
  exact hrest xs [] s rfl hs

/-! ## Readers that fail -/

/-- The reader fails on every stream that starts with the text. -/
def Fails (r : Reader X) (text : List Char) : Prop :=
  ∀ lead rest : List Char, (∀ c ∈ lead, space c = true) → r (lead ++ (text ++ rest)) = none

theorem fails_failure (text : List Char) : Fails (failure : Reader X) text := fun _ _ _ => rfl

theorem Fails.append (h : Fails r text) (text' : List Char) : Fails r (text ++ text') := by
  intro lead rest hlead
  rw [List.append_assoc]
  exact h lead (text' ++ rest) hlead

theorem Fails.bind (h : Fails r text) (k : X → Reader Y) : Fails (r >>= k) text := by
  intro lead rest hlead
  change (r _).bind (fun p => k p.1 p.2) = none
  rw [h lead rest hlead]
  rfl

/-- A later reader of a sequence fails. -/
theorem Reads.bind_fails (h : Reads r text x) {k : X → Reader Y} (hk : Fails (k x) text') :
    Fails (r >>= k) (text ++ text') := by
  intro lead rest hlead
  obtain ⟨lead₁, hlead₁, hr⟩ := h lead (text' ++ rest) hlead
  rw [List.append_assoc]
  change (r _).bind (fun p => k p.1 p.2) = none
  rw [hr]
  exact hk lead₁ rest hlead₁

/-- A step that does not read fails. -/
theorem fails_lift {o : Option X} (ho : o = none) (k : X → Reader Y) (text : List Char) :
    Fails (liftM o >>= k) text := by
  subst ho
  exact fun _ _ _ => rfl

theorem loop_add (step : S → Reader S) (m n : ℕ) (s : S) :
    TextStream.loop step (m + n) s = TextStream.loop step m s >>= TextStream.loop step n := by
  induction m generalizing s with
  | zero =>
    rw [Nat.zero_add]
    exact (pure_bind s _).symm
  | succ m ih =>
    rw [Nat.add_right_comm, TextStream.loop, TextStream.loop, bind_assoc]
    exact bind_congr fun s' => ih s'

/-- **A counted loop fails** in the round in which its step does. -/
theorem Fails.loop (step : S → Reader S) (write : X → List Char) {done : List X} (todo : List X) {s s' : S} {x : X}
    (hdone : Reads (TextStream.loop step done.length s) (done.flatMap write) s') (hx : Fails (step s') (write x)) :
    Fails (TextStream.loop step (done ++ x :: todo).length s) ((done ++ x :: todo).flatMap write) := by
  rw [List.length_append, List.length_cons, loop_add, List.flatMap_append, List.flatMap_cons]
  exact hdone.bind_fails ((hx.bind _).append _)

end TextStream
