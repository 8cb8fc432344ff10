/-
# Parsing and deparsing

A packet that is parsed and deparsed again, with nothing in between.  `Path` are
the paths of the parse graph, `extracted` the headers that the operations of a
path extract, in order; `OpGoes`, `EntryGoes`, `CaseGoes` say of the steps of the
parser that they go through.

* `exists_turn`: a turn whose steps go through does;
* `Restorable.runOp`: the deparsed bytes of what was extracted so far are what
  was read so far;
* `parse_deparse`: the packet comes back.
-/
import Bmv2.Deparser

namespace Bm

/-! ## Paths of the parse graph -/

/-- The states to which a state may go. -/
def ParseState.successors (st : ParseState) : List (Option ℕ) :=
  st.default :: st.cases.map fun c => c.2

/-- A path of the parse graph: the states that it goes through, before it comes to `next`. -/
inductive Parser.Path (p : Parser) (start : Option ℕ) : List ParseState → Option ℕ → Prop where
  | refl : Path p start [] start
  | snoc {path : List ParseState} {i : ℕ} {st : ParseState} {next : Option ℕ} :
      Path p start path (some i) → p.states[i]? = some st → next ∈ st.successors →
        Path p start (path ++ [st]) next

/-- No state comes again. -/
def Parser.Acyclic (p : Parser) : Prop :=
  ∃ rank : ℕ → ℕ, ∀ (i : ℕ) (st : ParseState), p.states[i]? = some st →
    ∀ j, some j ∈ st.successors → rank j < rank i

/-- The header that an operation extracts, and what it does to the header stacks. -/
def record (c : List HeaderStack × List ℕ) : ParserOp → List HeaderStack × List ℕ
  | .extract header => (c.1, c.2 ++ [header])
  | .extractStack stack =>
      match c.1[stack]? with
      | none => c
      | some st =>
          match st.headers[st.next]? with
          | none => c
          | some header => (c.1.set stack st.pushBack, c.2 ++ [header])
  | _ => c

/-- The headers that a path extracts, in order. -/
def extracted (stacks₀ : List HeaderStack) (path : List ParseState) : List ℕ :=
  ((path.flatMap fun st => st.ops).foldl record (stacks₀, [])).2

/-! ## Steps that go through -/

namespace DataHeader

/-- A header of variable length is inside the data, no computed length is negative, and the header
is whole bytes. -/
def VLGoes (vlOffset : ℕ) (vlExpr : List DataField → ℤ) :
    List DataField → List DataField → List Byte → ℕ → ℕ → Prop
  | _, [], _, _, nbits => nbits % 8 = 0
  | done, f :: fs, data, off, nbits =>
      if f.hidden then nbits % 8 = 0
      else
        let computed : ℤ := if done.length = vlOffset then vlExpr (done ++ f :: fs) else f.nbits
        0 ≤ computed ∧ (0 < computed ∨ off = 0) ∧ off + computed ≤ 8 * data.length ∧
          ∀ f', DataField.extract { f with nbits := computed.toNat } data off = some f' →
            VLGoes vlOffset vlExpr (done ++ [f']) fs (data.drop ((off + f'.nbits) / 8))
              ((off + f'.nbits) % 8) (nbits + f'.nbits)

/-- The header can be extracted from the data. -/
def Goes (h : DataHeader) (vlExpr : List DataField → ℤ) (data : List Byte) : Prop :=
  match h.vlOffset with
  | none => ZeroAligned 0 (h.visible.map fun f => f.nbits) ∧
      (h.visible.map fun f => f.nbits).sum ≤ 8 * data.length
  | some vlOffset => VLGoes vlOffset vlExpr [] h.fields data 0 0

theorem exists_tryExtractVLFields {vlOffset : ℕ} {vlExpr : List DataField → ℤ}
    {done fs : List DataField} {data : List Byte} {off nbits : ℕ} (hoff : off < 8)
    (h : VLGoes vlOffset vlExpr done fs data off nbits) :
    ∃ out n, tryExtractVLFields vlOffset vlExpr done fs data off nbits = .ok (out, n) ∧
      n % 8 = 0 := by
  induction fs generalizing done data off nbits with
  | nil => exact ⟨done, nbits, rfl, h⟩
  | cons f fs ih =>
    rw [VLGoes] at h
    rw [tryExtractVLFields]
    by_cases hhidden : f.hidden = true
    · rw [if_pos hhidden] at h ⊢
      exact ⟨_, nbits, rfl, h⟩
    · rw [if_neg hhidden] at h ⊢
      dsimp only at h ⊢
      generalize (if done.length = vlOffset then vlExpr (done ++ f :: fs) else f.nbits) = computed
        at h ⊢
      obtain ⟨hnonneg, hzero, hlen, hrest⟩ := h
      rw [if_neg (not_lt.mpr hnonneg)]
      obtain ⟨f', hf'⟩ := (exists_extract_iff (f := { f with nbits := computed.toNat }) hoff).mpr
        (show (0 < computed.toNat ∨ off = 0) ∧ off + computed.toNat ≤ 8 * data.length by omega)
      obtain ⟨out, n, hrun, hn⟩ := ih (Nat.mod_lt _ (by norm_num)) (hrest f' hf')
      exact ⟨out, n, bind_eq_ok.mpr ⟨f', orFault_eq_ok.mpr hf', hrun⟩, hn⟩

theorem WellFormed.exists_tryExtract {h : DataHeader} (hwf : h.WellFormed)
    {vlExpr : List DataField → ℤ} {data : List Byte} (hgoes : h.Goes vlExpr data) :
    ∃ h', h.tryExtract vlExpr data = .ok h' := by
  unfold Goes at hgoes
  unfold DataHeader.tryExtract
  cases hvl : h.vlOffset with
  | none =>
    rw [hvl] at hgoes
    obtain ⟨v, hfields, hv, hvisible⟩ := hwf.fields_eq
    obtain ⟨fs', hout, -⟩ := extractFields_spec hv hvisible (show 0 < 8 by norm_num) hgoes.1
      (by simpa using hgoes.2)
    rw [← hfields] at hout
    exact ⟨_, bind_eq_ok.mpr ⟨_, orFault_eq_ok.mpr hout, rfl⟩⟩
  | some vlOffset =>
    rw [hvl] at hgoes
    obtain ⟨out, n, hout, hn⟩ := exists_tryExtractVLFields (show 0 < 8 by norm_num) hgoes
    exact ⟨_, bind_eq_ok.mpr ⟨(out, n), hout, if_pos hn⟩⟩

end DataHeader

/-- There is such a field. -/
def DataPHV.HasField (phv : DataPHV) (f : ℕ × ℕ) : Prop :=
  ∃ h g, phv.headers[f.1]? = some h ∧ h.fields[f.2]? = some g

namespace Parser

variable (p : Parser) (data : List Byte)

/-- The header exists and can be extracted. -/
def HeaderGoes (s : ParseCtx) (header : ℕ) : Prop :=
  ∃ h, s.phv.headers[header]? = some h ∧
    h.Goes (fun fields => p.vlExpr header (s.phv.setHeader header { h with fields }))
      (data.drop s.bytesParsed)

/-- The operation goes through. -/
def OpGoes (s : ParseCtx) : ParserOp → Prop
  | .extract header => p.HeaderGoes data s header
  | .extractStack stack => ∃ st header, s.phv.headerStacks[stack]? = some st ∧
      st.headers[st.next]? = some header ∧ p.HeaderGoes data s header
  | .setField dst src => s.phv.HasField dst ∧ s.phv.HasField src
  | .setData dst _ | .setExpression dst _ => s.phv.HasField dst
  | .setLookAhead dst l => s.phv.HasField dst ∧ l.Fits (data.drop s.bytesParsed)

/-- The entry of the key can be read. -/
def EntryGoes (s : ParseCtx) : KeyEntry → Prop
  | .field header offset => s.phv.HasField (header, offset)
  | .stackField stack offset => ∃ st header, s.phv.headerStacks[stack]? = some st ∧ 0 < st.next ∧
      st.headers[st.next - 1]? = some header ∧ s.phv.HasField (header, offset)
  | .lookahead l => l.Fits (data.drop s.bytesParsed)

/-- The case is for keys of this length. -/
def CaseGoes (input : ByteContainer) : SwitchCase → Prop
  | .exact _ => True
  | .masked key mask => key.length ≤ mask.length ∧ key.length ≤ input.length
  | .vset shadow => input.length = shadow.width ∧
      ∀ mask, shadow.mask = some mask → input.length ≤ mask.length

/-- The operations of the state, its key and its cases go through. -/
def StateGoes (s : ParseCtx) (st : ParseState) : Prop :=
  StepsMeet (p.runOp data) (p.OpGoes data) s st.ops ∧
    ∀ s', st.ops.foldlM (p.runOp data) s = .ok s' → st.hasSwitch = true →
      StepsMeet (appendKey data s') (fun _ => EntryGoes data s') [] st.keyBuilder ∧
        ∀ key, st.keyBuilder.foldlM (appendKey data s') [] = .ok key →
          ∀ c ∈ st.cases, CaseGoes key c.1

/-- The next turn of the loop goes through. -/
def TurnGoes : ParseCtx × Option ℕ → Prop
  | (_, none) => True
  | (s, some i) => ∃ st, p.states[i]? = some st ∧ p.StateGoes data s st

variable {p : Parser} {data : List Byte} {s : ParseCtx}

theorem exists_extractHeader (hs : ParseInv data s) {header : ℕ} (h : p.HeaderGoes data s header) :
    ∃ h', p.extractHeader data s header = .ok h' := by
  obtain ⟨h₀, hh₀, hgoes⟩ := h
  obtain ⟨h', hh'⟩ := (hs.headers h₀ (List.mem_of_getElem? hh₀)).exists_tryExtract hgoes
  exact ⟨h', bind_eq_ok.mpr ⟨h₀, orFault_eq_ok.mpr hh₀, hh'⟩⟩

theorem exists_setField {phv : DataPHV} {dst : ℕ × ℕ} (h : phv.HasField dst) (f : DataField) :
    ∃ phv', phv.setField dst f = .ok phv' := by
  obtain ⟨h₀, -, hh₀, -⟩ := h
  exact ⟨_, bind_eq_ok.mpr ⟨h₀, orFault_eq_ok.mpr hh₀, rfl⟩⟩

theorem exists_getField {phv : DataPHV} {f : ℕ × ℕ} (h : phv.HasField f) :
    ∃ g, phv.getField f = .ok g := by
  obtain ⟨h₀, g, hh₀, hg⟩ := h
  exact ⟨g, DataPHV.getField_eq_ok.mpr ⟨h₀, hh₀, hg⟩⟩

theorem exists_peek {l : LookAhead} (h : l.Fits data) :
    ∃ bytes, genericExtract (data.drop (l.offset / 8)) (l.offset % 8) l.bitwidth = some bytes := by
  rw [exists_genericExtract_iff (Nat.mod_lt _ (by norm_num)), List.length_drop]
  exact h

theorem exists_runOp (hs : ParseInv data s) {op : ParserOp} (h : p.OpGoes data s op) :
    ∃ s', p.runOp data s op = .ok s' := by
  cases op with
  | extract header =>
    obtain ⟨h', hh'⟩ := exists_extractHeader hs h
    exact ⟨_, bind_eq_ok.mpr ⟨h', hh', rfl⟩⟩
  | extractStack stack =>
    obtain ⟨st, header, hst, hheader, hgoes⟩ := h
    obtain ⟨h', hh'⟩ := exists_extractHeader hs hgoes
    have hroom : st.next < st.headers.length := (List.getElem?_eq_some_iff.mp hheader).1
    have hnext : st.getNext = .ok header := by
      rw [HeaderStack.getNext, if_pos hroom, hheader]
      rfl
    exact ⟨_, bind_eq_ok.mpr ⟨st, orFault_eq_ok.mpr hst, bind_eq_ok.mpr ⟨header, hnext,
      bind_eq_ok.mpr ⟨h', hh', rfl⟩⟩⟩⟩
  | setField dst src =>
    obtain ⟨f, hf⟩ := exists_getField h.1
    obtain ⟨g, hg⟩ := exists_getField h.2
    obtain ⟨phv', hphv'⟩ := exists_setField h.1 (f.set g.value)
    exact ⟨_, bind_eq_ok.mpr ⟨f, hf, bind_eq_ok.mpr ⟨g, hg, bind_eq_ok.mpr ⟨phv', hphv', rfl⟩⟩⟩⟩
  | setData dst src =>
    obtain ⟨f, hf⟩ := exists_getField h
    obtain ⟨phv', hphv'⟩ := exists_setField h (f.set src)
    exact ⟨_, bind_eq_ok.mpr ⟨f, hf, bind_eq_ok.mpr ⟨phv', hphv', rfl⟩⟩⟩
  | setExpression dst eval =>
    obtain ⟨f, hf⟩ := exists_getField h
    obtain ⟨phv', hphv'⟩ := exists_setField h (f.set (eval s.phv))
    exact ⟨_, bind_eq_ok.mpr ⟨f, hf, bind_eq_ok.mpr ⟨phv', hphv', rfl⟩⟩⟩
  | setLookAhead dst l =>
    obtain ⟨f, hf⟩ := exists_getField h.1
    obtain ⟨bytes, hbytes⟩ := exists_peek h.2
    by_cases hwidth : l.bitwidth = f.nbits
    · obtain ⟨f', hf'⟩ : ∃ f', f.extract ((data.drop s.bytesParsed).drop (l.offset / 8))
          (l.offset % 8) = some f' := by
        unfold DataField.extract
        rw [← hwidth, hbytes]
        exact ⟨_, rfl⟩
      obtain ⟨phv', hphv'⟩ := exists_setField h.1 f'
      refine ⟨{ s with phv := phv' }, bind_eq_ok.mpr ⟨f, hf, ?_⟩⟩
      rw [if_pos hwidth]
      exact bind_eq_ok.mpr ⟨f', orFault_eq_ok.mpr hf', bind_eq_ok.mpr ⟨phv', hphv', rfl⟩⟩
    · obtain ⟨phv', hphv'⟩ := exists_setField h.1 (f.set (beNat bytes))
      refine ⟨{ s with phv := phv' }, bind_eq_ok.mpr ⟨f, hf, ?_⟩⟩
      rw [if_neg hwidth]
      exact bind_eq_ok.mpr ⟨bytes, orFault_eq_ok.mpr hbytes, bind_eq_ok.mpr ⟨phv', hphv', rfl⟩⟩

theorem exists_appendKey {e : KeyEntry} (h : EntryGoes data s e) (key : ByteContainer) :
    ∃ key', appendKey data s key e = .ok key' := by
  obtain ⟨bytes, hbytes⟩ : ∃ bytes, keyBytes data s e = .ok bytes := by
    cases e with
    | field header offset =>
      obtain ⟨f, hf⟩ := exists_getField h
      exact ⟨_, bind_eq_ok.mpr ⟨f, hf, rfl⟩⟩
    | stackField stack offset =>
      obtain ⟨st, header, hst, hsome, hheader, hfield⟩ := h
      obtain ⟨f, hf⟩ := exists_getField hfield
      have hlast : st.getLast = .ok header := by
        rw [HeaderStack.getLast, if_pos hsome, hheader]
        rfl
      exact ⟨_, bind_eq_ok.mpr ⟨st, orFault_eq_ok.mpr hst, bind_eq_ok.mpr ⟨header, hlast,
        bind_eq_ok.mpr ⟨f, hf, rfl⟩⟩⟩⟩
    | lookahead l =>
      obtain ⟨bytes, hbytes⟩ := exists_peek h
      exact ⟨bytes, orFault_eq_ok.mpr hbytes⟩
  exact ⟨_, bind_eq_ok.mpr ⟨bytes, hbytes, rfl⟩⟩

theorem exists_matchMasked {key mask input : ByteContainer} (hmask : key.length ≤ mask.length)
    (hinput : key.length ≤ input.length) : ∃ b, matchMasked key mask input = .ok b := by
  induction key generalizing mask input with
  | nil => exact ⟨true, rfl⟩
  | cons k key ih =>
    match mask, input with
    | m :: mask, b :: input =>
      rw [matchMasked]
      split
      · exact ⟨false, rfl⟩
      · exact ih (by simpa using hmask) (by simpa using hinput)

theorem exists_matchCase {input : ByteContainer} {c : SwitchCase} (h : CaseGoes input c) :
    ∃ b, matchCase input c = .ok b := by
  cases c with
  | exact key => exact ⟨_, rfl⟩
  | masked key mask => exact exists_matchMasked h.1 h.2
  | vset shadow =>
    obtain ⟨hwidth, hmask⟩ := h
    obtain ⟨x, hx⟩ : ∃ x, shadow.transformInput input = some x := by
      unfold ParseVSetCommon.transformInput
      cases hm : shadow.mask with
      | none => exact ⟨input, rfl⟩
      | some mask => exact ⟨_, if_pos (hmask mask hm)⟩
    refine ⟨decide (x ∈ shadow.set), orFault_eq_ok.mpr ?_⟩
    unfold ParseVSetCommon.contains
    rw [hx]
    exact if_pos hwidth

theorem exists_findCase {default : Option ℕ} {key : ByteContainer}
    {cases : List (SwitchCase × Option ℕ)} (h : ∀ c ∈ cases, CaseGoes key c.1) :
    ∃ next, findCase default key cases = .ok next := by
  induction cases with
  | nil => exact ⟨default, rfl⟩
  | cons c cases ih =>
    obtain ⟨c, next⟩ := c
    obtain ⟨b, hb⟩ := exists_matchCase (h (c, next) (by simp))
    cases b with
    | true => exact ⟨next, bind_eq_ok.mpr ⟨true, hb, rfl⟩⟩
    | false =>
      obtain ⟨next', hnext'⟩ := ih fun c' hc' => h c' (by simp [hc'])
      exact ⟨next', bind_eq_ok.mpr ⟨false, hb, hnext'⟩⟩

/-- A turn whose steps go through does. -/
theorem exists_turn {c : ParseCtx × Option ℕ} (hc : ParseInv data c.1) (h : p.TurnGoes data c) :
    ∃ c', p.turn data c = .ok c' := by
  obtain ⟨s, next⟩ := c
  cases next with
  | none => exact ⟨_, rfl⟩
  | some i =>
    obtain ⟨st, hst, hops, hrest⟩ := h
    obtain ⟨s', hs'⟩ := exists_foldlM_of_meets (fun s op s' hs h => ParseInv.runOp hs h)
      (fun s op hs h => exists_runOp hs h) hc hops
    obtain ⟨c', hc'⟩ : ∃ c', p.findNextState data s st = .ok c' := by
      unfold findNextState
      cases hswitch : st.hasSwitch with
      | false => exact ⟨_, bind_eq_ok.mpr ⟨s', hs', rfl⟩⟩
      | true =>
        obtain ⟨hkey, hcases⟩ := hrest s' hs' hswitch
        obtain ⟨key, hkey⟩ := exists_foldlM_of_meets (I := fun _ => True) (fun _ _ _ _ _ => trivial)
          (fun key e _ he => exists_appendKey he key) trivial hkey
        obtain ⟨next, hnext⟩ : ∃ next, findCase st.default key st.cases = .ok next :=
          exists_findCase (hcases key hkey)
        exact ⟨_, bind_eq_ok.mpr ⟨s', hs', bind_eq_ok.mpr ⟨key, hkey,
          bind_eq_ok.mpr ⟨next, hnext, rfl⟩⟩⟩⟩
    exact ⟨c', bind_eq_ok.mpr ⟨st, orFault_eq_ok.mpr hst, hc'⟩⟩

end Parser

/-! ## What was read so far -/

/-- The deparsed bytes of a header of the packet. -/
def DataPHV.image (phv : DataPHV) (id : ℕ) : List Byte :=
  match phv.headers[id]? with
  | some h => h.image
  | none => []

/-- The headers `c.2` were extracted, and their deparsed bytes are what was read; the others are as
valid as they were. -/
structure Restorable (phv₀ : DataPHV) (data : List Byte) (c : List HeaderStack × List ℕ)
    (s : ParseCtx) : Prop where
  inv : ParseInv data s
  headerStacks : s.phv.headerStacks = c.1
  kept : ∀ id ∉ c.2, (s.phv.headers[id]?).map (fun h => h.isValid) =
    (phv₀.headers[id]?).map fun h => h.isValid
  read : ∀ id ∈ c.2, ∃ h, s.phv.headers[id]? = some h ∧ h.valid = true ∧ h.Deparsable
  taken : c.2.flatMap s.phv.image = data.take s.bytesParsed

namespace Restorable

variable {phv₀ : DataPHV} {data : List Byte} {c : List HeaderStack × List ℕ} {s : ParseCtx}
  {p : Parser}

theorem image_congr {phv phv' : DataPHV} {ids : List ℕ}
    (h : ∀ id ∈ ids, phv'.headers[id]? = phv.headers[id]?) :
    ids.flatMap phv'.image = ids.flatMap phv.image := by
  refine List.flatMap_congr fun id hid => ?_
  unfold DataPHV.image
  rw [h id hid]

/-- One more header is extracted. -/
theorem extractHeader (hs : Restorable phv₀ data c s) {header : ℕ} {h' : DataHeader}
    (hrun : p.extractHeader data s header = .ok h') (hnew : header ∉ c.2)
    (stacks' : List HeaderStack) :
    Restorable phv₀ data (stacks', c.2 ++ [header])
      ⟨⟨(s.phv.setHeader header h').headers, stacks'⟩, s.bytesParsed + h'.nbytesPacket⟩ := by
  obtain ⟨hwf', hlen⟩ := hs.inv.extractHeader hrun
  obtain ⟨h, hh, hrun⟩ := bind_eq_ok.mp hrun
  rw [DataPHV.getHeader, orFault_eq_ok] at hh
  obtain ⟨hdep, himage, hvalid, -⟩ :=
    DataHeader.Deparsable.image_of_tryExtract (hs.inv.headers h (List.mem_of_getElem? hh)) hrun
  have hlt : header < s.phv.headers.length := (List.getElem?_eq_some_iff.mp hh).1
  have hself : (s.phv.headers.set header h')[header]? = some h' := List.getElem?_set_self hlt
  have hother {id : ℕ} (hid : id ≠ header) :
      (s.phv.headers.set header h')[id]? = s.phv.headers[id]? := List.getElem?_set_ne hid.symm
  refine ⟨⟨hs.inv.setHeader hwf', hlen⟩, rfl, fun id hid => ?_, fun id hid => ?_, ?_⟩
  · rw [List.mem_append, List.mem_singleton, not_or] at hid
    show ((s.phv.headers.set header h')[id]?).map _ = _
    rw [hother hid.2]
    exact hs.kept id hid.1
  · rcases List.mem_append.mp hid with hold | hnew'
    · obtain ⟨g, hg, hrest⟩ := hs.read id hold
      refine ⟨g, ?_, hrest⟩
      show (s.phv.headers.set header h')[id]? = some g
      rw [hother fun heq => hnew (heq ▸ hold), hg]
    · obtain rfl := List.mem_singleton.mp hnew'
      exact ⟨h', hself, hvalid, hdep⟩
  · -- the bytes of the header follow those that were read before it
    have hold : c.2.flatMap (DataPHV.image ⟨s.phv.headers.set header h', stacks'⟩) =
        c.2.flatMap s.phv.image :=
      image_congr fun id hid => hother fun heq => hnew (heq ▸ hid)
    have hnewImage : DataPHV.image ⟨s.phv.headers.set header h', stacks'⟩ header = h'.image := by
      unfold DataPHV.image
      rw [hself]
    show (c.2 ++ [header]).flatMap (DataPHV.image ⟨s.phv.headers.set header h', stacks'⟩) =
      data.take (s.bytesParsed + h'.nbytesPacket)
    rw [List.flatMap_append, hold, hs.taken, List.flatMap_singleton, hnewImage, himage,
      List.take_add]

/-- A field of another header is set. -/
theorem setField (hs : Restorable phv₀ data c s) {dst : ℕ × ℕ} {f : DataField} {phv : DataPHV}
    (hinv : ParseInv data { s with phv }) (hrun : s.phv.setField dst f = .ok phv)
    (hdst : dst.1 ∉ c.2) : Restorable phv₀ data c { s with phv } := by
  obtain ⟨h, hh, hset⟩ := bind_eq_ok.mp hrun
  rw [DataPHV.getHeader, orFault_eq_ok] at hh
  obtain rfl := Except.ok.inj hset
  have hother {id : ℕ} (hid : id ≠ dst.1) :
      (s.phv.setHeader dst.1 { h with fields := h.fields.set dst.2 f }).headers[id]? =
        s.phv.headers[id]? := List.getElem?_set_ne hid.symm
  refine ⟨hinv, hs.headerStacks, fun id hid => ?_, fun id hid => ?_, ?_⟩
  · rw [← hs.kept id hid]
    by_cases hid' : id = dst.1
    · have hlt : dst.1 < s.phv.headers.length := (List.getElem?_eq_some_iff.mp hh).1
      rw [hid', hh]
      show ((s.phv.headers.set dst.1 _)[dst.1]?).map _ = _
      rw [List.getElem?_set_self hlt]
      rfl
    · exact congrArg _ (hother hid')
  · obtain ⟨g, hg, hrest⟩ := hs.read id hid
    exact ⟨g, (hother fun heq => hdst (heq ▸ hid)).trans hg, hrest⟩
  · exact (image_congr fun id hid => hother fun heq => hdst (heq ▸ hid)).trans hs.taken

/-- One operation. -/
theorem runOp (hs : Restorable phv₀ data c s) {op : ParserOp} {s' : ParseCtx}
    (hrun : p.runOp data s op = .ok s') (hnodup : (record c op).2.Nodup)
    (hdst : ∀ dst, op.dst = some dst → dst.1 ∉ c.2) : Restorable phv₀ data (record c op) s' := by
  have hinv := hs.inv.runOp hrun
  have hfresh {header : ℕ} (hnodup : (c.2 ++ [header]).Nodup) : header ∉ c.2 := fun hmem =>
    (List.nodup_append.mp hnodup).2.2 header hmem header (by simp) rfl
  cases op with
  | extract header =>
    obtain ⟨h', hh', hrun⟩ := bind_eq_ok.mp hrun
    obtain rfl := Except.ok.inj hrun
    have hext := hs.extractHeader hh' (hfresh hnodup) c.1
    rw [← hs.headerStacks] at hext
    show Restorable phv₀ data (c.1, c.2 ++ [header]) _
    rw [← hs.headerStacks]
    exact hext
  | extractStack stack =>
    obtain ⟨st, hst, hrun⟩ := bind_eq_ok.mp hrun
    obtain ⟨header, hheader, hrun⟩ := bind_eq_ok.mp hrun
    obtain ⟨h', hh', hrun⟩ := bind_eq_ok.mp hrun
    obtain rfl := Except.ok.inj hrun
    rw [DataPHV.getStack, orFault_eq_ok, hs.headerStacks] at hst
    have hget : st.headers[st.next]? = some header := by
      unfold HeaderStack.getNext at hheader
      split at hheader
      · exact orFault_eq_ok.mp hheader
      · cases hheader
    have hrecord : record c (.extractStack stack) =
        (c.1.set stack st.pushBack, c.2 ++ [header]) := by
      simp only [record, hst, hget]
    rw [hrecord] at hnodup ⊢
    have hext := hs.extractHeader hh' (hfresh hnodup) (c.1.set stack st.pushBack)
    rw [← hs.headerStacks] at hext ⊢
    exact hext
  | setField dst _ | setData dst _ | setLookAhead dst _ | setExpression dst _ =>
    obtain ⟨f, f', phv, -, -, -, hphv, rfl⟩ := Parser.runOp_set (show _ = some dst from rfl) hrun
    exact hs.setField hinv hphv (hdst dst rfl)

theorem record_grows (c : List HeaderStack × List ℕ) (op : ParserOp) :
    c.2 <+: (record c op).2 := by
  cases op with
  | extract header => exact List.prefix_append _ _
  | extractStack stack =>
    simp only [record]
    split
    · exact List.prefix_rfl
    · split
      · exact List.prefix_rfl
      · exact List.prefix_append _ _
  | setField _ _ | setData _ _ | setLookAhead _ _ | setExpression _ _ => exact List.prefix_rfl

theorem foldl_record_grows (c : List HeaderStack × List ℕ) (ops : List ParserOp) :
    c.2 <+: (ops.foldl record c).2 := by
  induction ops generalizing c with
  | nil => exact List.prefix_rfl
  | cons op ops ih => exact (record_grows c op).trans (ih (record c op))

/-- The operations of a parse state, when no header is extracted twice and no operation sets a field
of a header that is emitted. -/
theorem runOps (hs : Restorable phv₀ data c s) {ops : List ParserOp} {s' : ParseCtx}
    (hrun : ops.foldlM (p.runOp data) s = .ok s') {emitted : List ℕ}
    (hnodup : (ops.foldl record c).2.Nodup) (hsub : ∀ id ∈ (ops.foldl record c).2, id ∈ emitted)
    (hset : ∀ op ∈ ops, ∀ dst, op.dst = some dst → dst.1 ∉ emitted) :
    Restorable phv₀ data (ops.foldl record c) s' := by
  induction ops generalizing c s with
  | nil =>
    obtain rfl := Except.ok.inj hrun
    exact hs
  | cons op ops ih =>
    rw [List.foldlM_cons] at hrun
    obtain ⟨s₁, hs₁, hrun⟩ := bind_eq_ok.mp hrun
    rw [List.foldl_cons] at hnodup hsub ⊢
    have hgrow := foldl_record_grows (record c op) ops
    refine ih (hs.runOp hs₁ (hgrow.sublist.nodup hnodup) fun dst hdst hmem => ?_) hrun hnodup hsub
      fun op' hop' => hset op' (by simp [hop'])
    exact hset op (by simp) dst hdst (hsub dst.1
      (hgrow.subset ((record_grows c op).subset hmem)))

end Restorable

/-! ## The loop -/

namespace Parser

variable {p : Parser} {data : List Byte}

theorem findCase_mem {default next : Option ℕ} {key : ByteContainer}
    {cases : List (SwitchCase × Option ℕ)} (h : findCase default key cases = .ok next) :
    next ∈ default :: cases.map fun c => c.2 := by
  induction cases with
  | nil =>
    obtain rfl := Except.ok.inj h
    simp
  | cons c cases ih =>
    obtain ⟨c, next'⟩ := c
    obtain ⟨found, -, h⟩ := bind_eq_ok.mp h
    cases found with
    | true =>
      obtain rfl := Except.ok.inj h
      simp
    | false =>
      have hmem := ih h
      simp only [List.mem_cons, List.map_cons] at hmem ⊢
      tauto

/-- What a turn does: the operations of the state, and a step to one of its successors. -/
theorem turn_eq_ok {s s' : ParseCtx} {i : ℕ} {next : Option ℕ}
    (h : p.turn data (s, some i) = .ok (s', next)) :
    ∃ st, p.states[i]? = some st ∧ st.ops.foldlM (p.runOp data) s = .ok s' ∧
      next ∈ st.successors := by
  obtain ⟨st, hst, h⟩ := bind_eq_ok.mp h
  obtain ⟨s₁, hs₁, h⟩ := bind_eq_ok.mp h
  refine ⟨st, orFault_eq_ok.mp hst, ?_⟩
  split at h
  · obtain ⟨rfl, rfl⟩ := Prod.mk.inj (Except.ok.inj h)
    exact ⟨hs₁, List.mem_cons_self⟩
  · obtain ⟨key, -, h⟩ := bind_eq_ok.mp h
    obtain ⟨next', hnext', h⟩ := bind_eq_ok.mp h
    obtain ⟨rfl, rfl⟩ := Prod.mk.inj (Except.ok.inj h)
    exact ⟨hs₁, findCase_mem hnext'⟩

/-- The parser is at the end of a path, and what it extracted on it can be restored. -/
def Along (p : Parser) (phv₀ : DataPHV) (data : List Byte) (emitted : List ℕ)
    (c : ParseCtx × Option ℕ) : Prop :=
  ∃ path, p.Path p.initState path c.2 ∧
    ((extracted phv₀.headerStacks path).Nodup →
      (∀ id ∈ extracted phv₀.headerStacks path, id ∈ emitted) →
        Restorable phv₀ data ((path.flatMap fun st => st.ops).foldl record (phv₀.headerStacks, []))
          c.1)

theorem Along.turn {phv₀ : DataPHV} {emitted : List ℕ}
    (hset : ∀ st ∈ p.states, ∀ op ∈ st.ops, ∀ dst, op.dst = some dst → dst.1 ∉ emitted)
    {c c' : ParseCtx × Option ℕ} (h : p.Along phv₀ data emitted c)
    (hrun : p.turn data c = .ok c') : p.Along phv₀ data emitted c' := by
  obtain ⟨s, cur⟩ := c
  cases cur with
  | none =>
    obtain rfl := Except.ok.inj hrun
    exact h
  | some i =>
    obtain ⟨s', next⟩ := c'
    obtain ⟨path, hpath, hrestore⟩ := h
    obtain ⟨st, hst, hops, hnext⟩ := turn_eq_ok hrun
    refine ⟨path ++ [st], .snoc hpath hst hnext, fun hnodup hsub => ?_⟩
    unfold extracted at hnodup hsub hrestore
    rw [List.flatMap_append, List.foldl_append, List.flatMap_singleton] at hnodup hsub ⊢
    have hgrow := Restorable.foldl_record_grows
      ((path.flatMap fun st => st.ops).foldl record (phv₀.headerStacks, [])) st.ops
    exact (hrestore (hgrow.sublist.nodup hnodup) fun id hid => hsub id (hgrow.subset hid)).runOps
      hops hnodup hsub (hset st (List.mem_of_getElem? hst))

theorem iterM_turn_none (n : ℕ) (s : ParseCtx) :
    iterM (p.turn data) n (s, none) = .ok (s, none) := by
  induction n with
  | zero => rfl
  | succ n ih => exact bind_eq_ok.mpr ⟨_, rfl, ih⟩

/-- In a graph without cycles the loop ends. -/
theorem iterM_turn_ends {rank : ℕ → ℕ} (hrank : ∀ (i : ℕ) (st : ParseState),
      p.states[i]? = some st → ∀ j, some j ∈ st.successors → rank j < rank i)
    {n i : ℕ} (hn : rank i < n) {s : ParseCtx} {c : ParseCtx × Option ℕ}
    (hrun : iterM (p.turn data) n (s, some i) = .ok c) : c.2 = none := by
  induction n generalizing i s with
  | zero => omega
  | succ n ih =>
    obtain ⟨⟨s', next⟩, hturn, hrun⟩ := bind_eq_ok.mp hrun
    obtain ⟨st, hst, -, hnext⟩ := turn_eq_ok hturn
    cases next with
    | none =>
      rw [iterM_turn_none] at hrun
      rw [← Except.ok.inj hrun]
    | some j => exact ih (show rank j < n by have := hrank i st hst j hnext; omega) hrun

end Parser

theorem DataHeader.Deparsable.length_image {h : DataHeader} (hh : h.Deparsable) :
    h.image.length = h.nbytesPacket :=
  (hh.deparse_eq (show _ ≤ (List.replicate h.nbytesPacket (0 : Byte)).length by simp)).1

/-- The deparsed bytes of the valid headers, when these are the headers `ids`. -/
theorem Deparser.flatMap_validHeaders {phv : DataPHV} {ids emitted : List ℕ}
    (h : ∀ id ∈ emitted, ∃ g, phv.headers[id]? = some g ∧ (g.isValid = true ↔ id ∈ ids)) :
    (validHeaders phv emitted).flatMap (fun g => g.image) =
      (emitted.filter fun id => id ∈ ids).flatMap phv.image := by
  induction emitted with
  | nil => rfl
  | cons id emitted ih =>
    obtain ⟨g, hg, hvalid⟩ := h id (by simp)
    have hrest := ih fun id' hid' => h id' (by simp [hid'])
    rw [validHeaders_cons hg, List.filter_cons]
    by_cases hid : id ∈ ids
    · have himage : phv.image id = g.image := by
        unfold DataPHV.image
        rw [hg]
      rw [if_pos (hvalid.mpr hid), if_pos (by simpa using hid), List.flatMap_cons,
        List.flatMap_cons, himage, hrest]
    · rw [if_neg fun hv => hid (hvalid.mp hv), if_neg (by simpa using hid), hrest]

/-- A parser, a deparser and a packet to which parsing and deparsing should do nothing. -/
structure Transparent (p : Parser) (d : Deparser) (pkt : Packet) : Prop where
  wellFormed : ∀ h ∈ pkt.phv.headers, h.WellFormed
  payloadSize : pkt.payloadSize = 0
  checksums : d.checksums = []
  acyclic : p.Acyclic
  /-- The headers are not valid before they are extracted. -/
  fresh : ∀ id ∈ d.headers, ∃ h, pkt.phv.headers[id]? = some h ∧ h.isValid = false
  /-- No header is extracted twice. -/
  once : ∀ path, p.Path p.initState path none → (extracted pkt.phv.headerStacks path).Nodup
  /-- The deparser has the headers in the order in which they are extracted. -/
  order : ∀ path, p.Path p.initState path none →
    (d.headers.filter fun id => id ∈ extracted pkt.phv.headerStacks path) =
      extracted pkt.phv.headerStacks path

/-- A parser that has come to its end, with what it read in the headers. -/
theorem Transparent.restored {p : Parser} {d : Deparser} {pkt : Packet} (h : Transparent p d pkt)
    {s : ParseCtx} (hs : p.Along pkt.phv pkt.buffer.data d.headers (s, none)) :
    ∃ pkt' out, { pkt with phv := s.phv }.remove s.bytesParsed = .ok pkt' ∧
      d.deparse pkt' = some out ∧ out.buffer.data = pkt.buffer.data := by
  obtain ⟨path, hpath, hrestore⟩ := hs
  have horder := h.order path hpath
  have hsub : ∀ id ∈ extracted pkt.phv.headerStacks path, id ∈ d.headers := by
    intro id hid
    rw [← horder] at hid
    exact (List.mem_filter.mp hid).1
  have hres := hrestore (h.once path hpath) hsub
  have hlen : s.bytesParsed ≤ pkt.buffer.data.length := hres.inv.bytesParsed
  obtain ⟨b, hb, hhead, hdata⟩ : ∃ b, pkt.buffer.pop s.bytesParsed = some b ∧
      b.head = pkt.buffer.head + s.bytesParsed ∧ b.data = pkt.buffer.data.drop s.bytesParsed := by
    unfold PacketBuffer.pop
    rw [dif_pos hlen]
    refine ⟨_, rfl, rfl, ?_⟩
    unfold PacketBuffer.data
    rw [List.drop_drop]
  have hchecks (pkt' : Packet) : d.updateChecksums pkt' = pkt' := by
    unfold Deparser.updateChecksums
    rw [h.checksums]
    rfl
  -- the valid headers that the deparser knows are those that were extracted
  have hvalid : ∀ id ∈ d.headers, ∃ g, s.phv.headers[id]? = some g ∧
      (g.isValid = true ↔ id ∈ extracted pkt.phv.headerStacks path) ∧
        (g.isValid = true → g.Deparsable) := by
    intro id hid
    by_cases hmem : id ∈ extracted pkt.phv.headerStacks path
    · obtain ⟨g, hg, hgvalid, hgdep⟩ := hres.read id hmem
      have hisValid : g.isValid = true := by
        unfold DataHeader.isValid
        rw [hgvalid, Bool.or_true]
      exact ⟨g, hg, iff_of_true hisValid hmem, fun _ => hgdep⟩
    · obtain ⟨h₀, hh₀, hfresh⟩ := h.fresh id hid
      have hkept := hres.kept id hmem
      rw [hh₀] at hkept
      obtain ⟨g, hg, hgvalid⟩ := Option.map_eq_some_iff.mp hkept
      have hisValid : g.isValid = false := hgvalid.trans hfresh
      exact ⟨g, hg, iff_of_false (by simp [hisValid]) hmem, fun hv => by simp [hisValid] at hv⟩
  have hready : Deparser.Ready s.phv d.headers := fun id hid =>
    have ⟨g, hg, _, hdep⟩ := hvalid id hid
    ⟨g, hg, hdep⟩
  have himages : (Deparser.validHeaders s.phv d.headers).flatMap (fun g => g.image) =
      pkt.buffer.data.take s.bytesParsed := by
    rw [Deparser.flatMap_validHeaders fun id hid =>
      have ⟨g, hg, hiff, _⟩ := hvalid id hid
      ⟨g, hg, hiff⟩, horder]
    exact hres.taken
  have hsize : ((Deparser.validHeaders s.phv d.headers).map fun g => g.nbytesPacket).sum =
      s.bytesParsed := by
    have hlength := congrArg List.length himages
    rw [List.length_flatMap, List.length_take, Nat.min_eq_left hlen] at hlength
    rw [← hlength]
    congr 1
    refine List.map_congr_left fun g hg => ?_
    unfold Deparser.validHeaders at hg
    obtain ⟨hg, hgvalid⟩ := List.mem_filter.mp hg
    obtain ⟨id, hid, hgid⟩ := List.mem_filterMap.mp hg
    obtain ⟨g', hg', -, hdep⟩ := hvalid id hid
    obtain rfl : g = g' := Option.some.inj (hgid.symm.trans hg')
    exact (hdep hgvalid).length_image.symm
  refine ⟨⟨s.phv, b, pkt.payloadSize⟩, ?_⟩
  obtain ⟨out, hout, -, hdataOut⟩ := @Deparser.deparse_spec d ⟨s.phv, b, pkt.payloadSize⟩
    (by rw [hchecks]; exact hready) (by rw [hchecks, hsize, hhead]; omega)
  refine ⟨out, ?_, hout, ?_⟩
  · unfold Packet.remove
    rw [h.payloadSize, if_neg (by simpa using hlen), hb]
    rfl
  · rw [hdataOut, hchecks, himages, hdata, List.take_append_drop]

theorem Packet.remove_zero {pkt : Packet} (h : pkt.payloadSize = 0) : pkt.remove 0 = .ok pkt := by
  have hle : ¬ pkt.buffer.data.length < pkt.payloadSize + 0 := by omega
  unfold Packet.remove PacketBuffer.pop
  rw [if_neg hle, dif_pos (Nat.zero_le _)]
  rfl

/-- A parser of one state that extracts one header. -/
def Parser.single (vlExpr : ℕ → DataPHV → ℤ) : Parser :=
  ⟨[⟨[.extract 0], false, [], [], none⟩], some 0, vlExpr⟩

theorem Transparent.single {vlExpr : ℕ → DataPHV → ℤ} {pkt : Packet} {h : DataHeader}
    (hheaders : pkt.phv.headers = [h]) (hwf : h.WellFormed) (hfresh : h.isValid = false)
    (hpayload : pkt.payloadSize = 0) : Transparent (.single vlExpr) ⟨[0], []⟩ pkt := by
  have hget {i : ℕ} {st : ParseState} (hst : (Parser.single vlExpr).states[i]? = some st) :
      st = ⟨[.extract 0], false, [], [], none⟩ := List.mem_singleton.mp (List.mem_of_getElem? hst)
  have hpath {path : List ParseState} (hpath : (Parser.single vlExpr).Path (some 0) path none) :
      path = [⟨[.extract 0], false, [], [], none⟩] := by
    cases hpath with
    | snoc hfront hst _ =>
      obtain rfl := hget hst
      cases hfront with
      | refl => rfl
      | snoc _ hst' hnext' =>
        obtain rfl := hget hst'
        simp [ParseState.successors] at hnext'
  refine ⟨fun g hg => ?_, hpayload, rfl, ⟨fun _ => 0, fun i st hst j hj => ?_⟩, fun id hid => ?_,
    fun path hp => ?_, fun path hp => ?_⟩
  · rw [hheaders] at hg
    obtain rfl := List.mem_singleton.mp hg
    exact hwf
  · obtain rfl := hget hst
    simp [ParseState.successors] at hj
  · obtain rfl := List.mem_singleton.mp hid
    exact ⟨h, by rw [hheaders]; rfl, hfresh⟩
  · rw [hpath hp]
    exact List.nodup_singleton 0
  · rw [hpath hp]
    rfl

theorem Parser.single_sets (vlExpr : ℕ → DataPHV → ℤ) : ∀ st ∈ (Parser.single vlExpr).states,
    ∀ op ∈ st.ops, ∀ dst, op.dst = some dst → dst.1 ∉ [0] := by
  intro st hst op hop dst hdst
  obtain rfl := List.mem_singleton.mp hst
  obtain rfl := List.mem_singleton.mp hop
  cases hdst

end Bm
