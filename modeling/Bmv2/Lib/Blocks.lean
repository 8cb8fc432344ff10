/-
# Arrays laid out in blocks

An array that is the concatenation of blocks: the offsets of the blocks, reading a
block back, and writing one.
-/
import Mathlib

variable {α : Type*}

/-- The offsets of consecutive blocks of the given sizes. -/
def blockOffsets : List ℕ → ℕ → List ℕ
  | [], _ => []
  | n :: ns, curr => curr :: blockOffsets ns (curr + n)

/-- `std::copy(src.begin(), src.end(), dst.begin() + offset)`. -/
def copyAt (dst : List α) (offset : ℕ) (src : List α) : List α :=
  dst.take offset ++ src ++ dst.drop (offset + src.length)

/-- A loop that goes through for each element of a list. -/
theorem mapM_eq_some_map {α β : Type} {g : α → Option β} {h : α → β} {l : List α}
    (hg : ∀ a ∈ l, g a = some (h a)) : l.mapM g = some (l.map h) := by
  induction l with
  | nil => rfl
  | cons a l ih =>
    rw [List.mapM_cons, hg a List.mem_cons_self, ih fun b hb => hg b (List.mem_cons_of_mem _ hb)]
    rfl

theorem isSome_mapM_iff {α β : Type} {g : α → Option β} {l : List α} :
    (l.mapM g).isSome ↔ ∀ a ∈ l, (g a).isSome := by
  induction l with
  | nil => simp
  | cons a l ih =>
    rw [List.forall_mem_cons, ← ih, List.mapM_cons]
    cases g a <;> cases l.mapM g <;> simp

theorem mapM_eq_some_iff_forall₂ {α β : Type} {g : α → Option β} {l : List α} {ys : List β} :
    l.mapM g = some ys ↔ List.Forall₂ (fun a b => g a = some b) l ys := by
  induction l generalizing ys with
  | nil => cases ys <;> simp
  | cons a l ih =>
    rw [List.mapM_cons]
    constructor
    · intro h
      obtain ⟨b, hb, h⟩ := Option.bind_eq_some_iff.mp h
      obtain ⟨bs, hbs, h⟩ := Option.bind_eq_some_iff.mp h
      cases h
      exact .cons hb (ih.mp hbs)
    · rintro (_ | ⟨hb, hbs⟩)
      rw [hb, ih.mpr hbs]
      rfl

/-- What is found for each element, found for all. -/
theorem exists_mapM_of_forall₂ {α β γ : Type} {g : α → Option β} {R : γ → β → Prop} {cs : List γ} {as : List α}
    (h : List.Forall₂ (fun c a => ∃ b, g a = some b ∧ R c b) cs as) : ∃ bs, as.mapM g = some bs ∧ List.Forall₂ R cs bs := by
  induction h with
  | nil => exact ⟨[], rfl, .nil⟩
  | cons hab _ ih =>
    obtain ⟨b, hb, hR⟩ := hab
    obtain ⟨bs, hbs, hRs⟩ := ih
    refine ⟨b :: bs, ?_, .cons hR hRs⟩
    rw [List.mapM_cons, hb, hbs]
    rfl

theorem mapM_eq_mapM_range {α β : Type} {g : α → Option β} (l : List α) :
    l.mapM g = (List.range l.length).mapM fun i => (l[i]?).bind g := by
  induction l with
  | nil => rfl
  | cons a l ih =>
    rw [List.length_cons, List.range_succ_eq_map, List.mapM_cons, List.mapM_cons, List.mapM_map, ih]
    rfl

theorem mapM_congr_of_mem {α β : Type} {g h : α → Option β} {l : List α} (heq : ∀ a ∈ l, g a = h a) :
    l.mapM g = l.mapM h := by
  induction l with
  | nil => rfl
  | cons a l ih =>
    rw [List.mapM_cons, List.mapM_cons, heq a List.mem_cons_self, ih fun b hb => heq b (List.mem_cons_of_mem a hb)]

@[simp] theorem length_blockOffsets (ns : List ℕ) (curr : ℕ) :
    (blockOffsets ns curr).length = ns.length := by
  induction ns generalizing curr with
  | nil => rfl
  | cons n ns ih => rw [blockOffsets, List.length_cons, ih, List.length_cons]

theorem getElem?_blockOffsets (ns : List ℕ) (curr : ℕ) {j : ℕ} (hj : j < ns.length) :
    (blockOffsets ns curr)[j]? = some (curr + (ns.take j).sum) := by
  induction ns generalizing curr j with
  | nil => simp at hj
  | cons n ns ih =>
    cases j with
    | zero => simp [blockOffsets]
    | succ j =>
      rw [blockOffsets, List.getElem?_cons_succ, ih _ (by simpa using hj), List.take_succ_cons,
        List.sum_cons]
      congr 1
      ring

theorem length_flatten_take (blocks : List (List α)) (j : ℕ) :
    (blocks.take j).flatten.length = ((blocks.map List.length).take j).sum := by
  rw [List.length_flatten, List.map_take]

/-- A concatenation around its block `j`. -/
theorem flatten_eq_around (blocks : List (List α)) {j : ℕ} (hj : j < blocks.length) :
    blocks.flatten = (blocks.take j).flatten ++ (blocks[j] ++ (blocks.drop (j + 1)).flatten) := by
  rw [← List.flatten_cons, ← List.flatten_append, ← List.drop_eq_getElem_cons hj,
    List.take_append_drop]

/-- Block `j` of a concatenation sits at the offset of block `j`. -/
theorem block_at_offset {blocks : List (List α)} {j : ℕ} {b : List α} (hb : blocks[j]? = some b) :
    (blocks.flatten.drop ((blocks.map List.length).take j).sum).take b.length = b := by
  obtain ⟨hj, rfl⟩ := List.getElem?_eq_some_iff.mp hb
  rw [flatten_eq_around blocks hj, ← length_flatten_take, List.drop_left, List.take_left]

/-- Writing at the offset of block `j` replaces that block. -/
theorem copyAt_block {blocks : List (List α)} {j : ℕ} {b src : List α} (hb : blocks[j]? = some b)
    (hlen : src.length = b.length) :
    copyAt blocks.flatten ((blocks.map List.length).take j).sum src = (blocks.set j src).flatten := by
  obtain ⟨hj, rfl⟩ := List.getElem?_eq_some_iff.mp hb
  rw [copyAt, ← length_flatten_take, flatten_eq_around blocks hj, List.take_left, hlen,
    List.drop_append, List.drop_eq_nil_of_le (by omega), List.nil_append, Nat.add_sub_cancel_left,
    List.drop_left, List.set_eq_take_append_cons_drop, if_pos hj, List.flatten_append,
    List.flatten_cons, List.append_assoc]

/-! ## Writing many positions -/

variable {ι : Type*}

@[simp] theorem length_foldl_set (pos : ι → ℕ) (val : ι → α) (is : List ι) (l : List α) :
    (is.foldl (fun l i => l.set (pos i) (val i)) l).length = l.length := by
  induction is generalizing l with
  | nil => rfl
  | cons i is ih => rw [List.foldl_cons, ih, List.length_set]

/-- Writes at different positions are all read back. -/
theorem getElem?_foldl_set (pos : ι → ℕ) (val : ι → α) (is : List ι)
    (hinj : ∀ i ∈ is, ∀ j ∈ is, pos i = pos j → i = j) {l : List α} {i : ι} (hi : i ∈ is)
    (hlt : pos i < l.length) :
    (is.foldl (fun l i => l.set (pos i) (val i)) l)[pos i]? = some (val i) := by
  induction is using List.reverseRecOn with
  | nil => simp at hi
  | append_singleton is a ih =>
    rw [List.foldl_append, List.foldl_cons, List.foldl_nil]
    by_cases hpos : pos a = pos i
    · obtain rfl : a = i := hinj a (by simp) i hi hpos
      rw [List.getElem?_set_self (by simpa using hlt)]
    · have hi' : i ∈ is := by
        rcases List.mem_append.mp hi with hi | hi
        · exact hi
        · exact absurd (congrArg pos (List.mem_singleton.mp hi)).symm hpos
      rw [List.getElem?_set_ne hpos]
      exact ih (fun j hj k hk => hinj j (by simp [hj]) k (by simp [hk])) hi'

/-- Writing blocks at their offsets is writing the list of blocks. -/
theorem foldl_copyAt (pos : ι → ℕ) (src : ι → List α) (is : List ι) (blocks : List (List α))
    (sizes : List ℕ) (hsizes : blocks.map List.length = sizes)
    (hsrc : ∀ i ∈ is, sizes[pos i]? = some (src i).length) :
    is.foldl (fun arr i => copyAt arr (sizes.take (pos i)).sum (src i)) blocks.flatten =
      (is.foldl (fun blocks i => blocks.set (pos i) (src i)) blocks).flatten := by
  induction is generalizing blocks with
  | nil => rfl
  | cons i is ih =>
    have hi := hsrc i (by simp)
    rw [← hsizes, List.getElem?_map, Option.map_eq_some_iff] at hi
    obtain ⟨b, hb, hlen⟩ := hi
    rw [List.foldl_cons, List.foldl_cons]
    have hwrite := copyAt_block hb hlen.symm
    rw [hsizes] at hwrite
    rw [hwrite]
    refine ih _ ?_ fun j hj => hsrc j (by simp [hj])
    obtain ⟨hlt, rfl⟩ := List.getElem?_eq_some_iff.mp hb
    have hself : (blocks.map List.length).set (pos i) (blocks[pos i]).length =
        blocks.map List.length := by
      have hlt' : pos i < (blocks.map List.length).length := by simpa using hlt
      have hset := List.set_getElem_self hlt'
      rwa [List.getElem_map] at hset
    rw [List.map_set, ← hlen, hself, hsizes]

/-! ## Blocks made from two lists -/

section Zip

variable {β γ : Type*} {R : α → β → Prop} {as : List α} {bs : List β}

theorem List.Forall₂.zipWith_congr (h : List.Forall₂ R as bs) {g g' : α → β → γ}
    (hg : ∀ a b, R a b → g a b = g' a b) : List.zipWith g as bs = List.zipWith g' as bs := by
  induction h with
  | nil => rfl
  | cons hR _ ih => rw [List.zipWith_cons_cons, List.zipWith_cons_cons, hg _ _ hR, ih]

theorem List.Forall₂.zipWith_left (h : List.Forall₂ R as bs) (f : α → γ) :
    List.zipWith (fun a _ => f a) as bs = as.map f := by
  induction h with
  | nil => rfl
  | cons _ _ ih => rw [List.zipWith_cons_cons, List.map_cons, ih]

theorem List.Forall₂.zipWith_right (h : List.Forall₂ R as bs) (f : β → γ) :
    List.zipWith (fun _ b => f b) as bs = bs.map f := by
  induction h with
  | nil => rfl
  | cons _ _ ih => rw [List.zipWith_cons_cons, List.map_cons, ih]

theorem List.Forall₂.zipWith_zipWith (h : List.Forall₂ R as bs) (c : α → β → β) (g : α → β → γ) :
    List.zipWith g as (List.zipWith c as bs) = List.zipWith (fun a b => g a (c a b)) as bs := by
  induction h with
  | nil => rfl
  | cons _ _ ih => rw [List.zipWith_cons_cons, List.zipWith_cons_cons, ih, List.zipWith_cons_cons]

end Zip
