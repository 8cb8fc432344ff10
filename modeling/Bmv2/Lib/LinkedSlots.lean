/-
# Doubly linked lists threaded through an array

Nodes sit in an array and carry two links, which are slots of that array (`none`
is the null pointer).  `Segment nodes before p is last after` says that the chain
that starts at link `p` runs through the slots `is` in order, that its first node
points back to `before`, that its last node points on to `after`, and that `last`
is the last slot of the chain (`before` when the chain is empty).  A whole list
is a segment that starts with no predecessor and ends with no successor.

The three updates of a linked list (push in front, insert behind a node, unlink a
node) are given here on bare nodes, each with the theorem that says which chain
they leave.
-/
import Mathlib

namespace LinkedSlots

/-- A node: a payload and the links to its neighbours. -/
structure Node (α : Type*) where
  item : α
  prev : Option ℕ
  next : Option ℕ

variable {α : Type*}

/-! ## Chains -/

/-- The chain of slots that starts at link `p`; see the head of the file. -/
def Segment (nodes : List (Node α)) :
    Option ℕ → Option ℕ → List ℕ → Option ℕ → Option ℕ → Prop
  | before, p, [], last, after => last = before ∧ after = p
  | before, p, i :: is, last, after =>
      p = some i ∧ ∃ n, nodes[i]? = some n ∧ n.prev = before ∧
        Segment nodes (some i) n.next is last after

/-- A segment of a concatenation splits, and two segments that meet compose. -/
theorem segment_append {nodes : List (Node α)} {before p last after : Option ℕ}
    {is js : List ℕ} :
    Segment nodes before p (is ++ js) last after ↔
      ∃ m q, Segment nodes before p is m q ∧ Segment nodes m q js last after := by
  induction is generalizing before p with
  | nil => simp [Segment]
  | cons i is ih =>
    simp only [List.cons_append, Segment, ih]
    constructor
    · rintro ⟨rfl, n, hn, hprev, m, q, his, hjs⟩
      exact ⟨m, q, ⟨rfl, n, hn, hprev, his⟩, hjs⟩
    · rintro ⟨m, q, ⟨rfl, n, hn, hprev, his⟩, hjs⟩
      exact ⟨rfl, n, hn, hprev, m, q, his, hjs⟩

/-- A segment depends on the nodes at its own slots only. -/
theorem Segment.congr {nodes nodes' : List (Node α)} {before p last after : Option ℕ}
    {is : List ℕ} (h : Segment nodes before p is last after)
    (hsame : ∀ i ∈ is, nodes'[i]? = nodes[i]?) :
    Segment nodes' before p is last after := by
  induction is generalizing before p with
  | nil => exact h
  | cons i is ih =>
    obtain ⟨hp, n, hn, hprev, hrest⟩ := h
    refine ⟨hp, n, ?_, hprev, ih hrest fun j hj => hsame j (by simp [hj])⟩
    rw [hsame i (by simp), hn]

/-- Every slot of a segment holds a node. -/
theorem Segment.exists_node {nodes : List (Node α)} {before p last after : Option ℕ}
    {is : List ℕ} (h : Segment nodes before p is last after) {i : ℕ} (hi : i ∈ is) :
    ∃ n, nodes[i]? = some n := by
  induction is generalizing before p with
  | nil => simp at hi
  | cons j is ih =>
    obtain ⟨-, n, hn, -, hrest⟩ := h
    rcases List.mem_cons.mp hi with rfl | hi
    · exact ⟨n, hn⟩
    · exact ih hrest hi

/-- The last slot of a segment. -/
theorem Segment.last_eq {nodes : List (Node α)} {before p last after : Option ℕ}
    {is : List ℕ} (h : Segment nodes before p is last after) :
    last = is.getLast?.or before := by
  induction is generalizing before p with
  | nil => simpa using h.1
  | cons i is ih =>
    obtain ⟨-, n, -, -, hrest⟩ := h
    rw [ih hrest]
    cases is <;> simp [List.getLast?_cons]

/-- The link a segment starts with. -/
theorem Segment.start_eq {nodes : List (Node α)} {before p last after : Option ℕ}
    {is : List ℕ} (h : Segment nodes before p is last after) :
    p = is.head?.or after := by
  cases is with
  | nil => simpa using h.2.symm
  | cons i is => simpa using h.1

/-- The slots of a segment lie inside the array. -/
theorem Segment.lt_length {nodes : List (Node α)} {before p last after : Option ℕ}
    {is : List ℕ} (h : Segment nodes before p is last after) {i : ℕ} (hi : i ∈ is) :
    i < nodes.length := by
  obtain ⟨n, hn⟩ := h.exists_node hi
  exact (List.getElem?_eq_some_iff.mp hn).1

/-! ## Link updates -/

/-- Write the back link of the node at slot `i`. -/
def setPrev (nodes : List (Node α)) (i : ℕ) (p : Option ℕ) : List (Node α) :=
  nodes.modify i fun n => { n with prev := p }

/-- Write the forward link of the node at slot `i`. -/
def setNext (nodes : List (Node α)) (i : ℕ) (p : Option ℕ) : List (Node α) :=
  nodes.modify i fun n => { n with next := p }

/-- `if (p) p->prev = q`. -/
def setPrevOf (nodes : List (Node α)) (p q : Option ℕ) : List (Node α) :=
  match p with
  | none => nodes
  | some i => setPrev nodes i q

/-- `if (p) p->next = q`. -/
def setNextOf (nodes : List (Node α)) (p q : Option ℕ) : List (Node α) :=
  match p with
  | none => nodes
  | some i => setNext nodes i q

@[simp] theorem length_setPrev (nodes : List (Node α)) (i : ℕ) (p : Option ℕ) :
    (setPrev nodes i p).length = nodes.length := by simp [setPrev]

@[simp] theorem length_setNext (nodes : List (Node α)) (i : ℕ) (p : Option ℕ) :
    (setNext nodes i p).length = nodes.length := by simp [setNext]

@[simp] theorem length_setPrevOf (nodes : List (Node α)) (p q : Option ℕ) :
    (setPrevOf nodes p q).length = nodes.length := by cases p <;> simp [setPrevOf]

@[simp] theorem length_setNextOf (nodes : List (Node α)) (p q : Option ℕ) :
    (setNextOf nodes p q).length = nodes.length := by cases p <;> simp [setNextOf]

theorem getElem?_setPrev (nodes : List (Node α)) (i j : ℕ) (p : Option ℕ) :
    (setPrev nodes i p)[j]? =
      if i = j then nodes[j]?.map (fun n => { n with prev := p }) else nodes[j]? := by
  rw [setPrev, List.getElem?_modify]
  split <;> simp

theorem getElem?_setNext (nodes : List (Node α)) (i j : ℕ) (p : Option ℕ) :
    (setNext nodes i p)[j]? =
      if i = j then nodes[j]?.map (fun n => { n with next := p }) else nodes[j]? := by
  rw [setNext, List.getElem?_modify]
  split <;> simp

theorem getElem?_setPrevOf_ne (nodes : List (Node α)) {p q : Option ℕ} {j : ℕ}
    (hj : p ≠ some j) : (setPrevOf nodes p q)[j]? = nodes[j]? := by
  cases p with
  | none => rfl
  | some i => rw [setPrevOf, getElem?_setPrev, if_neg (fun h => hj (congrArg some h))]

theorem getElem?_setNextOf_ne (nodes : List (Node α)) {p q : Option ℕ} {j : ℕ}
    (hj : p ≠ some j) : (setNextOf nodes p q)[j]? = nodes[j]? := by
  cases p with
  | none => rfl
  | some i => rw [setNextOf, getElem?_setNext, if_neg (fun h => hj (congrArg some h))]

/-- Link updates leave the payloads alone. -/
theorem item_setPrevOf (nodes : List (Node α)) (p q : Option ℕ) (j : ℕ) :
    (setPrevOf nodes p q)[j]?.map Node.item = nodes[j]?.map Node.item := by
  cases p with
  | none => rfl
  | some i => rw [setPrevOf, getElem?_setPrev]; split <;> cases nodes[j]? <;> rfl

theorem item_setNextOf (nodes : List (Node α)) (p q : Option ℕ) (j : ℕ) :
    (setNextOf nodes p q)[j]?.map Node.item = nodes[j]?.map Node.item := by
  cases p with
  | none => rfl
  | some i => rw [setNextOf, getElem?_setNext]; split <;> cases nodes[j]? <;> rfl

theorem item_setNext (nodes : List (Node α)) (i : ℕ) (p : Option ℕ) (j : ℕ) :
    (setNext nodes i p)[j]?.map Node.item = nodes[j]?.map Node.item :=
  item_setNextOf nodes (some i) p j

/-- Giving the first node of a segment another predecessor. -/
theorem Segment.setPrevOf_start {nodes : List (Node α)} {before p last after q : Option ℕ}
    {is : List ℕ} (h : Segment nodes before p is last after) (hnodup : is.Nodup)
    (hafter : ∀ j, after = some j → j ∉ is) :
    ∃ last', Segment (setPrevOf nodes is.head? q) q p is last' after := by
  cases is with
  | nil => exact ⟨q, rfl, h.2⟩
  | cons i is =>
    obtain ⟨hp, n, hn, -, hrest⟩ := h
    refine ⟨last, hp, { n with prev := q }, ?_, rfl, hrest.congr fun j hj => ?_⟩
    · rw [List.head?_cons, setPrevOf, getElem?_setPrev, if_pos rfl, hn]; rfl
    · refine getElem?_setPrevOf_ne nodes fun hij => ?_
      obtain rfl : i = j := by simpa using hij
      exact (List.nodup_cons.mp hnodup).1 hj

/-- Giving the last node of a segment another successor. -/
theorem Segment.setNext_last {nodes : List (Node α)} {before p last after q : Option ℕ}
    {is : List ℕ} {i : ℕ} (h : Segment nodes before p (is ++ [i]) last after)
    (hnodup : (is ++ [i]).Nodup) :
    Segment (setNext nodes i q) before p (is ++ [i]) (some i) q := by
  obtain ⟨m, r, his, hr, n, hn, hprev, hlast, hafter⟩ := segment_append.mp h
  have hnotin : i ∉ is := by
    rw [List.nodup_append] at hnodup
    exact fun hmem => hnodup.2.2 i hmem i (by simp) rfl
  refine segment_append.mpr ⟨m, r, his.congr fun j hj => ?_, hr, { n with next := q }, ?_,
    hprev, rfl, rfl⟩
  · rw [getElem?_setNext, if_neg (fun hij : i = j => hnotin (hij ▸ hj))]
  · rw [getElem?_setNext, if_pos rfl, hn]; rfl

/-! ## Insertion and removal -/

/-- Put a node with payload `a` at slot `i`, in front of the list that starts at
`head`. -/
def pushFront (nodes : List (Node α)) (head : Option ℕ) (i : ℕ) (a : α) : List (Node α) :=
  setPrevOf (nodes.set i ⟨a, none, head⟩) head (some i)

/-- Put a node with payload `a` at slot `i`, right behind the node at slot `j`. -/
def insertAfter (nodes : List (Node α)) (j i : ℕ) (a : α) : Option (List (Node α)) := do
  let before ← nodes[j]?
  let nodes := nodes.set i ⟨a, some j, before.next⟩
  let nodes := setNext nodes j (some i)
  pure (setPrevOf nodes before.next (some i))

/-- Take the node at slot `i` out of its list: its neighbours are linked to each
other. -/
def unlink (nodes : List (Node α)) (i : ℕ) : Option (List (Node α)) := do
  let n ← nodes[i]?
  pure (setPrevOf (setNextOf nodes n.prev n.next) n.next n.prev)

/-- The payloads after a node has been put in. -/
theorem item_set {nodes : List (Node α)} {i : ℕ} (n : Node α) (hi : i < nodes.length) (j : ℕ) :
    (nodes.set i n)[j]?.map Node.item = if j = i then some n.item else nodes[j]?.map Node.item := by
  by_cases hij : j = i
  · subst hij
    simp [hi]
  · rw [if_neg hij, List.getElem?_set_ne (Ne.symm hij)]

theorem item_pushFront {nodes : List (Node α)} {head : Option ℕ} {i : ℕ} {a : α}
    (hi : i < nodes.length) (j : ℕ) :
    (pushFront nodes head i a)[j]?.map Node.item =
      if j = i then some a else nodes[j]?.map Node.item := by
  rw [pushFront, item_setPrevOf, item_set _ hi]

theorem item_insertAfter {nodes nodes' : List (Node α)} {j i : ℕ} {a : α}
    (hi : i < nodes.length) (h : insertAfter nodes j i a = some nodes') (k : ℕ) :
    nodes'[k]?.map Node.item = if k = i then some a else nodes[k]?.map Node.item := by
  simp only [insertAfter, Option.bind_eq_bind, Option.bind_eq_some_iff, Option.pure_def,
    Option.some.injEq] at h
  obtain ⟨before, -, rfl⟩ := h
  rw [item_setPrevOf, item_setNext, item_set _ hi]

theorem item_unlink {nodes nodes' : List (Node α)} {i : ℕ} (h : unlink nodes i = some nodes')
    (k : ℕ) : nodes'[k]?.map Node.item = nodes[k]?.map Node.item := by
  simp only [unlink, Option.bind_eq_bind, Option.bind_eq_some_iff, Option.pure_def,
    Option.some.injEq] at h
  obtain ⟨n, -, rfl⟩ := h
  rw [item_setPrevOf, item_setNextOf]

@[simp] theorem length_pushFront (nodes : List (Node α)) (head : Option ℕ) (i : ℕ) (a : α) :
    (pushFront nodes head i a).length = nodes.length := by simp [pushFront]

theorem length_insertAfter {nodes nodes' : List (Node α)} {j i : ℕ} {a : α}
    (h : insertAfter nodes j i a = some nodes') : nodes'.length = nodes.length := by
  simp only [insertAfter, Option.bind_eq_bind, Option.bind_eq_some_iff, Option.pure_def,
    Option.some.injEq] at h
  obtain ⟨before, -, rfl⟩ := h
  simp

theorem length_unlink {nodes nodes' : List (Node α)} {i : ℕ} (h : unlink nodes i = some nodes') :
    nodes'.length = nodes.length := by
  simp only [unlink, Option.bind_eq_bind, Option.bind_eq_some_iff, Option.pure_def,
    Option.some.injEq] at h
  obtain ⟨n, -, rfl⟩ := h
  simp

theorem segment_pushFront {nodes : List (Node α)} {head last : Option ℕ} {is : List ℕ}
    (h : Segment nodes none head is last none) (hnodup : is.Nodup) {i : ℕ} {a : α}
    (hi : i < nodes.length) (hfresh : i ∉ is) :
    ∃ last', Segment (pushFront nodes head i a) none (some i) (i :: is) last' none := by
  have hhead : head = is.head? := by simpa using h.start_eq
  have hset : Segment (nodes.set i ⟨a, none, head⟩) none head is last none :=
    h.congr fun j hj => List.getElem?_set_ne (fun hij : i = j => hfresh (hij ▸ hj))
  obtain ⟨last', hrest⟩ := hset.setPrevOf_start (q := some i) hnodup (by simp)
  refine ⟨last', rfl, ⟨a, none, head⟩, ?_, rfl, ?_⟩
  · rw [pushFront, getElem?_setPrevOf_ne]
    · simp [hi]
    · rw [hhead]
      exact fun hh => hfresh (List.mem_of_mem_head? hh)
  · rw [pushFront]
    rw [← hhead] at hrest
    exact hrest

theorem segment_insertAfter {nodes : List (Node α)} {head last : Option ℕ}
    {is js : List ℕ} {j i : ℕ} {a : α}
    (h : Segment nodes none head (is ++ j :: js) last none)
    (hnodup : (is ++ j :: js).Nodup) (hi : i < nodes.length) (hfresh : i ∉ is ++ j :: js) :
    ∃ nodes' last', insertAfter nodes j i a = some nodes' ∧
      Segment nodes' none head (is ++ j :: i :: js) last' none := by
  have hsplit : is ++ j :: js = (is ++ [j]) ++ js := by simp
  rw [hsplit] at h hnodup hfresh
  obtain ⟨m, q, hfront, hback⟩ := segment_append.mp h
  obtain ⟨hnodup₁, hnodup₂, hdisj⟩ := List.nodup_append.mp hnodup
  obtain ⟨n, hn⟩ := h.exists_node (i := j) (by simp)
  have hq : q = n.next := by
    obtain ⟨-, -, -, -, n', hn', -, -, hq⟩ := segment_append.mp hfront
    rw [hn] at hn'
    cases hn'
    exact hq
  subst hq
  have hnext : n.next = js.head? := by simpa using hback.start_eq
  have hij : i ≠ j := fun hij => hfresh (by simp [hij])
  have hifront : i ∉ is ++ [j] := fun hmem => hfresh (by simp at hmem ⊢; tauto)
  have hijs : i ∉ js := fun hmem => hfresh (by simp [hmem])
  -- the part in front of the new node: only `j`'s forward link changes
  have hfront' : Segment (setNext (nodes.set i ⟨a, some j, n.next⟩) j (some i)) none head
      (is ++ [j]) (some j) (some i) :=
    Segment.setNext_last (hfront.congr fun k hk =>
      List.getElem?_set_ne (fun hik : i = k => hifront (hik ▸ hk))) hnodup₁
  -- the part behind it: only its first back link changes
  have hback' : Segment (setNext (nodes.set i ⟨a, some j, n.next⟩) j (some i)) m n.next js
      last none := by
    refine hback.congr fun k hk => ?_
    rw [getElem?_setNext, if_neg, List.getElem?_set_ne (fun hik : i = k => hijs (hik ▸ hk))]
    exact fun hjk => hdisj j (by simp) k hk hjk
  obtain ⟨last', hback''⟩ := hback'.setPrevOf_start (q := some i) hnodup₂ (by simp)
  rw [← hnext] at hback''
  have hframe : ∀ k, k ∉ js →
      (setPrevOf (setNext (nodes.set i ⟨a, some j, n.next⟩) j (some i)) n.next
        (some i))[k]? = (setNext (nodes.set i ⟨a, some j, n.next⟩) j (some i))[k]? := by
    intro k hk
    refine getElem?_setPrevOf_ne _ fun hh => hk ?_
    rw [hnext] at hh
    exact List.mem_of_mem_head? hh
  refine ⟨setPrevOf (setNext (nodes.set i ⟨a, some j, n.next⟩) j (some i)) n.next (some i),
    last', by simp [insertAfter, hn], ?_⟩
  rw [show is ++ j :: i :: js = (is ++ [j]) ++ (i :: js) by simp]
  refine segment_append.mpr ⟨some j, some i, hfront'.congr fun k hk => ?_, rfl,
    ⟨a, some j, n.next⟩, ?_, rfl, hback''⟩
  · exact hframe k fun hkjs => hdisj k hk k hkjs rfl
  · rw [hframe i hijs, getElem?_setNext, if_neg hij.symm]
    simp [hi]

theorem segment_unlink {nodes : List (Node α)} {head last : Option ℕ}
    {is js : List ℕ} {i : ℕ} (h : Segment nodes none head (is ++ i :: js) last none)
    (hnodup : (is ++ i :: js).Nodup) :
    ∃ n nodes' last', nodes[i]? = some n ∧ n.prev = is.getLast? ∧ n.next = js.head? ∧
      unlink nodes i = some nodes' ∧
      Segment nodes' none (if is = [] then js.head? else head) (is ++ js) last' none := by
  obtain ⟨m, q, hfront, rfl, n, hn, hprev, hback⟩ := segment_append.mp h
  obtain ⟨hnodup₁, hnodup₂, hdisj⟩ := List.nodup_append.mp hnodup
  obtain ⟨hijs, hnodupjs⟩ := List.nodup_cons.mp hnodup₂
  have hm : m = is.getLast? := by simpa using hfront.last_eq
  have hnext : n.next = js.head? := by simpa using hback.start_eq
  have hprev' : n.prev = is.getLast? := hprev.trans hm
  have hunlink : unlink nodes i =
      some (setPrevOf (setNextOf nodes is.getLast? js.head?) js.head? is.getLast?) := by
    simp [unlink, hn, hprev', hnext]
  -- the front keeps its links except the last forward one
  have hfront' : ∃ start, Segment (setNextOf nodes is.getLast? js.head?) none start is
      is.getLast? js.head? ∧ start = if is = [] then js.head? else head := by
    rcases List.eq_nil_or_concat is with rfl | ⟨is', l, rfl⟩
    · exact ⟨js.head?, ⟨rfl, rfl⟩, by simp⟩
    · rw [List.concat_eq_append] at *
      refine ⟨head, ?_, by simp⟩
      rw [List.getLast?_concat, setNextOf]
      exact Segment.setNext_last hfront hnodup₁
  obtain ⟨start, hfront', hstart⟩ := hfront'
  have hback' : Segment (setNextOf nodes is.getLast? js.head?) (some i) n.next js last none :=
    hback.congr fun k hk => getElem?_setNextOf_ne _ fun hlast =>
      hdisj k (List.mem_of_mem_getLast? hlast) k (by simp [hk]) rfl
  obtain ⟨last', hback''⟩ := hback'.setPrevOf_start (q := is.getLast?) hnodupjs (by simp)
  refine ⟨n, _, last', hn, hprev', hnext, hunlink, ?_⟩
  rw [← hstart]
  refine segment_append.mpr ⟨is.getLast?, js.head?, hfront'.congr fun k hk => ?_, ?_⟩
  · refine getElem?_setPrevOf_ne _ fun hhead => ?_
    exact hdisj k hk k (by simp [List.mem_of_mem_head? hhead]) rfl
  · rw [hnext] at hback''
    exact hback''

end LinkedSlots
