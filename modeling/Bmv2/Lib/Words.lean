/-
# Words in a text stream

What is read back from a stream word by word: leading spaces are skipped, and a word goes up to the
next space or the end of the stream, where the stream stays.

* `readWord_append`: a word that was written comes back;
* `readWord_eq_iff`: a sequence that was written comes back exactly when it has no space;
* `length_readWord_le`: otherwise what comes back is shorter, unless there are only spaces.
-/
import Mathlib

variable {α : Type*} (space : α → Bool)

/-- The next word, and the rest of the stream. -/
def readWord (s : List α) : List α × List α :=
  ((s.dropWhile space).takeWhile (!space ·), (s.dropWhile space).dropWhile (!space ·))

variable {space}

theorem not_space_of_mem_readWord {s : List α} {a : α} (h : a ∈ (readWord space s).1) :
    space a = false := by
  simpa using List.mem_takeWhile_imp h

/-- Leading spaces are skipped. -/
theorem readWord_spaces (spaces : List α) {s : List α} (h : ∀ a ∈ spaces, space a = true) :
    readWord space (spaces ++ s) = readWord space s := by
  rw [readWord, readWord, List.dropWhile_append_of_pos h]

/-- The rest of a word stops at a space. -/
theorem takeWhile_append_space (w : List α) {sep : α} (hsep : space sep = true) (rest : List α) :
    (w ++ sep :: rest).takeWhile (!space ·) = w.takeWhile (!space ·) := by
  induction w with
  | nil => simp [hsep]
  | cons a w ih =>
    rw [List.cons_append, List.takeWhile_cons, List.takeWhile_cons, ih]

/-- **A word that was written** comes back, and the stream stays behind it. -/
theorem readWord_append {w : List α} (hw : ∀ a ∈ w, space a = false) (hne : w ≠ []) {sep : α}
    (hsep : space sep = true) (rest : List α) :
    readWord space (w ++ sep :: rest) = (w, sep :: rest) := by
  cases w with
  | nil => exact absurd rfl hne
  | cons a w =>
    have hstart : ((a :: w) ++ sep :: rest).dropWhile space = (a :: w) ++ sep :: rest := by
      rw [List.cons_append, List.dropWhile_cons_of_neg]
      rw [hw a (by simp)]
      exact Bool.false_ne_true
    have hword : ∀ b ∈ a :: w, (!space b) = true := by
      intro b hb
      rw [hw b hb]
      rfl
    rw [readWord, hstart, takeWhile_append_space _ hsep, List.takeWhile_eq_self_iff.mpr hword,
      List.dropWhile_append_of_pos hword, List.dropWhile_cons_of_neg (by simp [hsep])]

/-- A sequence that was written comes back exactly when it is a word. -/
theorem readWord_eq_iff {w : List α} (hne : w ≠ []) {sep : α} (hsep : space sep = true)
    (rest : List α) :
    (readWord space (w ++ sep :: rest)).1 = w ↔ ∀ a ∈ w, space a = false := by
  constructor
  · intro h a ha
    exact not_space_of_mem_readWord (h ▸ ha)
  · intro h
    rw [readWord_append h hne hsep]

/-- What comes back from a sequence is not longer, and shorter if it is another one, unless the
sequence has spaces only. -/
theorem length_readWord_le {w : List α} (hw : ∃ a ∈ w, space a = false) {sep : α}
    (hsep : space sep = true) (rest : List α) :
    (readWord space (w ++ sep :: rest)).1 = w ∨
      (readWord space (w ++ sep :: rest)).1.length < w.length := by
  have hdrop : (w ++ sep :: rest).dropWhile space = w.dropWhile space ++ sep :: rest := by
    rw [List.dropWhile_append, if_neg]
    intro hnil
    obtain ⟨a, ha, hspace⟩ := hw
    have hall := List.dropWhile_eq_nil_iff.mp (List.isEmpty_iff.mp hnil) a ha
    rw [hspace] at hall
    cases hall
  rw [readWord, hdrop, takeWhile_append_space _ hsep]
  -- the word is what is left of the sequence without a prefix and a suffix
  have hprefix := List.takeWhile_prefix (!space ·) (l := w.dropWhile space)
  have hsuffix := List.dropWhile_suffix space (l := w)
  rcases Nat.lt_or_ge ((w.dropWhile space).takeWhile (!space ·)).length w.length with hlt | hge
  · exact .inr hlt
  · left
    have hsame := hprefix.eq_of_length (le_antisymm hprefix.length_le
      (hsuffix.length_le.trans hge))
    rw [hsame]
    exact hsuffix.eq_of_length (le_antisymm hsuffix.length_le (hge.trans hprefix.length_le))
