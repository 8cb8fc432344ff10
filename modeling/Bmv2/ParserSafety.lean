/-
# What a parser reads

When parsing stays inside the packet and inside the header stacks.  `Unsafe` are
the faults that it should avoid; `OpFits`, `EntryFits` say of a parser operation
and of an entry of a transition key, in the state before it, that they do.

* `avoids_tryExtract_iff`: the extraction of a header;
* `turn_invariant`: what is read is inside the packet;
* `parser_safe_iff`: the whole parse.
-/
import Bmv2.HeaderSpec
import Bmv2.Parser

namespace Bm

/-- The faults of reading beyond the packet, removing too much of it, and of full and empty stacks. -/
def ParseFault.Unsafe : ParseFault → Prop
  | .packetEnd | .stackFull | .stackEmpty | .removal => True
  | .size | .id => False

namespace DataHeader

/-- The fields of a header in the packet: the hidden field is the last one. -/
def visible (h : DataHeader) : List DataField := h.fields.dropLast

/-- A header as its constructor makes it: the only hidden field is the last one, and a header of
fixed length knows its length. -/
structure WellFormed (h : DataHeader) : Prop where
  hidden : h.fields.map (fun f => f.hidden) = List.replicate (h.fields.length - 1) false ++ [true]
  nbytes : h.vlOffset = none → 8 * h.nbytesPacket = (h.visible.map fun f => f.nbits).sum

theorem WellFormed.fields_eq {h : DataHeader} (hwf : h.WellFormed) :
    ∃ v, h.fields = h.visible ++ [v] ∧ v.hidden = true ∧ ∀ f ∈ h.visible, f.hidden = false := by
  have hne : h.fields ≠ [] := by
    intro hnil
    have hlen := congrArg List.length hwf.hidden
    simp [hnil] at hlen
  have hsplit := List.dropLast_append_getLast hne
  have hmap := hwf.hidden
  rw [← hsplit, List.map_append, List.length_append, List.length_singleton,
    Nat.add_sub_cancel] at hmap
  obtain ⟨hfront, hlast⟩ := List.append_inj hmap (by simp)
  refine ⟨h.fields.getLast hne, hsplit.symm, by simpa using hlast, fun f hf => ?_⟩
  have hmem : f.hidden ∈ h.fields.dropLast.map fun f => f.hidden := List.mem_map_of_mem hf
  rw [hfront] at hmem
  exact List.eq_of_mem_replicate hmem

/-- Fields that are visible and a hidden one behind them. -/
theorem hidden_eq {fs : List DataField} {v : DataField} (hv : v.hidden = true)
    (hvisible : ∀ f ∈ fs, f.hidden = false) :
    (fs ++ [v]).map (fun f => f.hidden) =
      List.replicate ((fs ++ [v]).length - 1) false ++ [true] := by
  rw [List.map_append, List.length_append, List.length_singleton, Nat.add_sub_cancel]
  congr 1
  · exact List.eq_replicate_of_mem (by simpa using hvisible) |>.trans (by simp)
  · simp [hv]

/-! ## Extraction of a header -/

/-- A header of variable length is extracted like one of fixed length with the computed widths. -/
theorem tryExtractVLFields_eq_ok {vlOffset : ℕ} {vlExpr : List DataField → ℤ} {fs : List DataField}
    {v : DataField} (hv : v.hidden = true) (hvisible : ∀ f ∈ fs, f.hidden = false)
    {done out : List DataField} {data : List Byte} {off nbits n : ℕ}
    (h : tryExtractVLFields vlOffset vlExpr done (fs ++ [v]) data off nbits = .ok (out, n)) :
    ∃ fs₁ fs', (∀ f ∈ fs₁, f.hidden = false) ∧
      extractFields (fs₁ ++ [v]) data off = some (fs' ++ [v]) ∧ out = done ++ fs' ++ [v] ∧
        n = nbits + (fs'.map fun f => f.nbits).sum := by
  induction fs generalizing done data off nbits with
  | nil =>
    rw [List.nil_append, tryExtractVLFields, if_pos hv] at h
    cases h
    exact ⟨[], [], by simp, by rw [List.nil_append, extractFields, if_pos hv], by simp, by simp⟩
  | cons f fs ih =>
    rw [List.cons_append, tryExtractVLFields, if_neg (by simp [hvisible f (by simp)])] at h
    dsimp only at h
    generalize (if done.length = vlOffset then vlExpr (done ++ f :: (fs ++ [v])) else f.nbits) =
      computed at h
    split at h
    · cases h
    · obtain ⟨f₁, hf₁, hrest⟩ := bind_eq_ok.mp h
      rw [orFault_eq_ok] at hf₁
      obtain ⟨fs₁, fs', hvis₁, hrun, rfl, rfl⟩ := ih (fun g hg => hvisible g (by simp [hg])) hrest
      refine ⟨{ f with nbits := computed.toNat } :: fs₁, f₁ :: fs', ?_, ?_, by simp, by
        rw [List.map_cons, List.sum_cons]; omega⟩
      · intro g hg
        rcases List.mem_cons.mp hg with rfl | hg
        · exact hvisible f (by simp)
        · exact hvis₁ g hg
      · rw [List.cons_append, extractFields, if_neg (by simp [hvisible f (by simp)]), hf₁]
        simp only [Option.bind_eq_bind, Option.bind_some, hrun]
        rfl

/-- The fields of a header of variable length are inside the data, as long as no computed length is
negative. -/
def VLFits (vlOffset : ℕ) (vlExpr : List DataField → ℤ) :
    List DataField → List DataField → List Byte → ℕ → Prop
  | _, [], _, _ => True
  | done, f :: fs, data, off =>
      f.hidden = true ∨
        let computed : ℤ := if done.length = vlOffset then vlExpr (done ++ f :: fs) else f.nbits
        computed < 0 ∨ ((0 < computed ∨ off = 0) ∧ off + computed ≤ 8 * data.length ∧
          ∀ f', DataField.extract { f with nbits := computed.toNat } data off = some f' →
            VLFits vlOffset vlExpr (done ++ [f']) fs (data.drop ((off + f'.nbits) / 8))
              ((off + f'.nbits) % 8))

/-- The header is inside the data. -/
def Fits (h : DataHeader) (vlExpr : List DataField → ℤ) (data : List Byte) : Prop :=
  match h.vlOffset with
  | none => ZeroAligned 0 (h.visible.map fun f => f.nbits) ∧
      (h.visible.map fun f => f.nbits).sum ≤ 8 * data.length
  | some vlOffset => VLFits vlOffset vlExpr [] h.fields data 0

theorem exists_extract_iff {f : DataField} {data : List Byte} {off : ℕ} (hoff : off < 8) :
    (∃ f', f.extract data off = some f') ↔
      (0 < f.nbits ∨ off = 0) ∧ off + f.nbits ≤ 8 * data.length := by
  have hbytes : nbitsToNbytes (off + f.nbits) ≤ data.length ↔ off + f.nbits ≤ 8 * data.length := by
    unfold nbitsToNbytes
    omega
  rw [← hbytes, ← exists_genericExtract_iff hoff]
  unfold DataField.extract
  simp only [Option.bind_eq_bind, Option.bind_eq_some_iff]
  constructor
  · rintro ⟨f', bytes, hrun, -⟩
    exact ⟨bytes, hrun⟩
  · rintro ⟨bytes, hrun⟩
    exact ⟨_, bytes, hrun, rfl⟩

theorem avoids_tryExtractVLFields_iff {vlOffset : ℕ} {vlExpr : List DataField → ℤ}
    {done fs : List DataField} {data : List Byte} {off nbits : ℕ} (hoff : off < 8) :
    Avoids ParseFault.Unsafe (tryExtractVLFields vlOffset vlExpr done fs data off nbits) ↔
      VLFits vlOffset vlExpr done fs data off := by
  induction fs generalizing done data off nbits with
  | nil => exact iff_of_true trivial trivial
  | cons f fs ih =>
    rw [tryExtractVLFields, VLFits]
    cases f.hidden with
    | true => simp
    | false =>
      rw [if_neg (by simp)]
      dsimp only
      generalize (if done.length = vlOffset then vlExpr (done ++ f :: fs) else f.nbits) = computed
      by_cases hneg : computed < 0
      · simp [hneg, ParseFault.Unsafe]
      · rw [if_neg hneg, avoids_bind, avoids_orFault, exists_extract_iff hoff]
        simp only [orFault_eq_ok]
        have hwidth : (0 < computed.toNat ∨ off = 0) ∧ off + computed.toNat ≤ 8 * data.length ↔
            (0 < computed ∨ off = 0) ∧ (off : ℤ) + computed ≤ 8 * data.length := by omega
        simp only [hwidth, hneg, false_or, ParseFault.Unsafe, true_implies, Bool.false_eq_true,
          and_assoc]
        refine and_congr_right fun _ => and_congr_right fun _ => forall_congr' fun f' =>
          forall_congr' fun _ => ih (Nat.mod_lt _ (by norm_num))

/-- The extraction of a header stays inside the packet exactly when the header does. -/
theorem avoids_tryExtract_iff {h : DataHeader} (hwf : h.WellFormed) {vlExpr : List DataField → ℤ}
    {data : List Byte} :
    Avoids ParseFault.Unsafe (h.tryExtract vlExpr data) ↔ h.Fits vlExpr data := by
  unfold tryExtract Fits
  cases h.vlOffset with
  | none =>
    obtain ⟨v, hfields, hv, hvisible⟩ := hwf.fields_eq
    dsimp only
    rw [avoids_bind, avoids_orFault, hfields]
    simp only [avoids_pure, implies_true, and_true]
    constructor
    · intro h
      obtain ⟨out, hout⟩ := h trivial
      obtain ⟨-, -, -, -, hzero, hsum⟩ := extractFields_eq_some hv hvisible (show 0 < 8 by norm_num)
        (Nat.zero_le _) hout
      exact ⟨hzero, by simpa using hsum⟩
    · rintro ⟨hzero, hsum⟩ -
      obtain ⟨fs', hout, -⟩ := extractFields_spec hv hvisible (show 0 < 8 by norm_num) hzero
        (by simpa using hsum)
      exact ⟨_, hout⟩
  | some vlOffset =>
    dsimp only
    rw [avoids_bind, avoids_tryExtractVLFields_iff (by norm_num)]
    refine and_iff_left fun out _ => ?_
    split
    · trivial
    · exact id

/-- Both kinds of headers end in `mark_valid` of fields that were read one after another. -/
theorem WellFormed.tryExtract_eq_ok {h h' : DataHeader} (hwf : h.WellFormed)
    {vlExpr : List DataField → ℤ} {data : List Byte} (hrun : h.tryExtract vlExpr data = .ok h') :
    ∃ (fs₁ fs' : List DataField) (v : DataField) (nbytes : ℕ), v.hidden = true ∧
      (∀ f ∈ fs₁, f.hidden = false) ∧ extractFields (fs₁ ++ [v]) data 0 = some (fs' ++ [v]) ∧
        8 * nbytes = (fs'.map fun f => f.nbits).sum ∧
          h' = markValid { h with fields := fs' ++ [v], nbytesPacket := nbytes } := by
  obtain ⟨v, hfields, hv, hvisible⟩ := hwf.fields_eq
  unfold DataHeader.tryExtract at hrun
  cases hvl : h.vlOffset with
  | none =>
    rw [hvl, hfields] at hrun
    obtain ⟨out, hout, hmark⟩ := bind_eq_ok.mp hrun
    rw [orFault_eq_ok] at hout
    obtain ⟨fs', rfl, hwidths, -, -, -⟩ := extractFields_eq_some hv hvisible
      (show 0 < 8 by norm_num) (Nat.zero_le _) hout
    exact ⟨_, fs', v, h.nbytesPacket, hv, hvisible, hout, by rw [hwidths, hwf.nbytes hvl],
      (Except.ok.inj hmark).symm⟩
  | some vlOffset =>
    rw [hvl, hfields] at hrun
    obtain ⟨⟨out, n⟩, hout, hmark⟩ := bind_eq_ok.mp hrun
    obtain ⟨fs₁, fs', hvis₁, hrun₁, rfl, rfl⟩ := tryExtractVLFields_eq_ok hv hvisible hout
    dsimp only at hmark
    split at hmark
    · rw [List.nil_append] at hmark
      refine ⟨fs₁, fs', v, _, hv, hvis₁, hrun₁, ?_, (Except.ok.inj hmark).symm⟩
      omega
    · cases hmark

/-- The visible fields of a header after `mark_valid`. -/
theorem visible_markValid {h : DataHeader} {fs : List DataField} {v : DataField}
    (hfields : h.fields = fs ++ [v]) : h.markValid.visible = fs := by
  unfold DataHeader.visible
  rw [markValid_fields h hfields, List.dropLast_concat]

/-- A header that was extracted knows its length, and is inside the packet. -/
theorem WellFormed.tryExtract {h h' : DataHeader} (hwf : h.WellFormed)
    {vlExpr : List DataField → ℤ} {data : List Byte} (hrun : h.tryExtract vlExpr data = .ok h') :
    h'.WellFormed ∧ h'.nbytesPacket ≤ data.length := by
  obtain ⟨fs₁, fs', v, nbytes, hv, hvis₁, hrun₁, hbytes, rfl⟩ := hwf.tryExtract_eq_ok hrun
  obtain ⟨fs'', heq, hwidths, hvis', -, hsum⟩ := extractFields_eq_some hv hvis₁
    (show 0 < 8 by norm_num) (Nat.zero_le _) hrun₁
  obtain rfl : fs' = fs'' := (List.append_inj' heq rfl).1
  refine ⟨⟨?_, fun _ => ?_⟩, ?_⟩
  · rw [markValid_fields _ rfl]
    exact hidden_eq (by rw [DataField.set_hidden, hv]) hvis'
  · rw [visible_markValid rfl]
    exact hbytes
  · show nbytes ≤ data.length
    rw [hwidths] at hbytes
    omega

/-- A field of a header may be replaced by one of the same width. -/
theorem WellFormed.set {h : DataHeader} (hwf : h.WellFormed) {j : ℕ} {f f' : DataField}
    (hf : h.fields[j]? = some f) (hnbits : f'.nbits = f.nbits) (hhidden : f'.hidden = f.hidden) :
    ({ h with fields := h.fields.set j f' } : DataHeader).WellFormed := by
  have hsame {α : Type} (g : DataField → α) (hg : g f' = g f) :
      (h.fields.set j f').map g = h.fields.map g := by
    rw [List.map_set, hg]
    refine List.ext_getElem? fun i => ?_
    rw [List.getElem?_set]
    split
    · next hij =>
      obtain ⟨hlt, rfl⟩ := List.getElem?_eq_some_iff.mp hf
      subst hij
      simp [hlt]
    · rfl
  refine ⟨?_, fun hvl => ?_⟩
  · show (h.fields.set j f').map (fun f => f.hidden) = _
    rw [hsame (fun f => f.hidden) hhidden, hwf.hidden, List.length_set]
  · have hdrop := hwf.nbytes hvl
    unfold DataHeader.visible at hdrop ⊢
    dsimp only
    rw [List.map_dropLast, hsame (fun f => f.nbits) hnbits, ← List.map_dropLast]
    exact hdrop

end DataHeader

/-! ## Parser operations -/

/-- The headers are well formed, and what was read is inside the packet. -/
structure ParseInv (data : List Byte) (s : ParseCtx) : Prop where
  headers : ∀ h ∈ s.phv.headers, h.WellFormed
  bytesParsed : s.bytesParsed ≤ data.length

namespace Parser

variable (p : Parser) (data : List Byte)

/-- The header that an operation extracts is inside the packet. -/
def HeaderFits (s : ParseCtx) (header : ℕ) : Prop :=
  ∀ h, s.phv.headers[header]? = some h →
    h.Fits (fun fields => p.vlExpr header (s.phv.setHeader header { h with fields }))
      (data.drop s.bytesParsed)

end Parser

/-- The bits of a lookahead are inside the data. -/
def LookAhead.Fits (l : LookAhead) (data : List Byte) : Prop :=
  (0 < l.bitwidth ∨ l.offset % 8 = 0) ∧
    nbitsToNbytes (l.offset % 8 + l.bitwidth) ≤ data.length - l.offset / 8

namespace Parser

variable (p : Parser) (data : List Byte)

/-- The operation reads inside the packet, and finds room in the header stack. -/
def OpFits (s : ParseCtx) : ParserOp → Prop
  | .extract header => p.HeaderFits data s header
  | .extractStack stack => ∀ st, s.phv.headerStacks[stack]? = some st →
      st.next < st.headers.length ∧
        ∀ header, st.headers[st.next]? = some header → p.HeaderFits data s header
  | .setLookAhead dst l => ∀ h f, s.phv.headers[dst.1]? = some h → h.fields[dst.2]? = some f →
      l.Fits (data.drop s.bytesParsed)
  | .setField .. | .setData .. | .setExpression .. => True

/-- The entry reads inside the packet, and finds a header in the stack. -/
def EntryFits (s : ParseCtx) : KeyEntry → Prop
  | .field .. => True
  | .stackField stack _ => ∀ st, s.phv.headerStacks[stack]? = some st → 0 < st.next
  | .lookahead l => l.Fits (data.drop s.bytesParsed)

/-- The operations of a parse state and the entries of its key fit, one after another. -/
def StateFits (s : ParseCtx) (st : ParseState) : Prop :=
  StepsMeet (p.runOp data) (p.OpFits data) s st.ops ∧
    ∀ s', st.ops.foldlM (p.runOp data) s = .ok s' → st.hasSwitch = true →
      StepsMeet (appendKey data s') (fun _ => EntryFits data s') [] st.keyBuilder

/-- The next turn of the loop fits. -/
def TurnFits : ParseCtx × Option ℕ → Prop
  | (_, none) => True
  | (s, some i) => ∀ st, p.states[i]? = some st → p.StateFits data s st

end Parser

/-! ## One operation -/

/-- A missing header, field, stack or state is not one of the faults. -/
theorem avoids_id {α : Type} (x : Option α) : Avoids ParseFault.Unsafe (orFault .id x) :=
  avoids_orFault.mpr fun h => h.elim

theorem DataPHV.avoids_getField (phv : DataPHV) (f : ℕ × ℕ) :
    Avoids ParseFault.Unsafe (phv.getField f) :=
  (avoids_bind _ _).mpr ⟨avoids_id _, fun _ _ => avoids_id _⟩

theorem DataPHV.avoids_setField (phv : DataPHV) (dst : ℕ × ℕ) (f : DataField) :
    Avoids ParseFault.Unsafe (phv.setField dst f) :=
  (avoids_bind _ _).mpr ⟨avoids_id _, fun _ _ => trivial⟩

theorem DataPHV.getField_eq_ok {phv : DataPHV} {dst : ℕ × ℕ} {f : DataField} :
    phv.getField dst = .ok f ↔
      ∃ h, phv.headers[dst.1]? = some h ∧ h.fields[dst.2]? = some f := by
  unfold DataPHV.getField DataPHV.getHeader
  simp only [bind_eq_ok, orFault_eq_ok]

/-- An operation that sets a field gives it other content of the same width. -/
theorem Parser.runOp_set {p : Parser} {data : List Byte} {s s' : ParseCtx} {op : ParserOp}
    {dst : ℕ × ℕ} (hdst : op.dst = some dst) (hrun : p.runOp data s op = .ok s') :
    ∃ f f' phv, s.phv.getField dst = .ok f ∧ f'.nbits = f.nbits ∧ f'.hidden = f.hidden ∧
      s.phv.setField dst f' = .ok phv ∧ s' = { s with phv } := by
  cases op with
  | extract header => cases hdst
  | extractStack stack => cases hdst
  | setField _ src =>
    obtain rfl := Option.some.inj hdst
    obtain ⟨f, hf, hrun⟩ := bind_eq_ok.mp hrun
    obtain ⟨g, -, hrun⟩ := bind_eq_ok.mp hrun
    obtain ⟨phv, hphv, hrun⟩ := bind_eq_ok.mp hrun
    exact ⟨f, _, phv, hf, f.set_nbits _, f.set_hidden _, hphv, (Except.ok.inj hrun).symm⟩
  | setData _ src =>
    obtain rfl := Option.some.inj hdst
    obtain ⟨f, hf, hrun⟩ := bind_eq_ok.mp hrun
    obtain ⟨phv, hphv, hrun⟩ := bind_eq_ok.mp hrun
    exact ⟨f, _, phv, hf, f.set_nbits _, f.set_hidden _, hphv, (Except.ok.inj hrun).symm⟩
  | setLookAhead _ src =>
    obtain rfl := Option.some.inj hdst
    obtain ⟨f, hf, hrun⟩ := bind_eq_ok.mp hrun
    dsimp only at hrun
    split at hrun
    · obtain ⟨f', hf', hrun⟩ := bind_eq_ok.mp hrun
      rw [orFault_eq_ok] at hf'
      obtain ⟨bytes, -, hfield, -⟩ := DataField.extract_eq_some hf'
      obtain ⟨phv, hphv, hrun⟩ := bind_eq_ok.mp hrun
      exact ⟨f, f', phv, hf, by rw [hfield], by rw [hfield], hphv, (Except.ok.inj hrun).symm⟩
    · obtain ⟨bytes, -, hrun⟩ := bind_eq_ok.mp hrun
      obtain ⟨phv, hphv, hrun⟩ := bind_eq_ok.mp hrun
      exact ⟨f, _, phv, hf, f.set_nbits _, f.set_hidden _, hphv, (Except.ok.inj hrun).symm⟩
  | setExpression _ eval =>
    obtain rfl := Option.some.inj hdst
    obtain ⟨f, hf, hrun⟩ := bind_eq_ok.mp hrun
    obtain ⟨phv, hphv, hrun⟩ := bind_eq_ok.mp hrun
    exact ⟨f, _, phv, hf, f.set_nbits _, f.set_hidden _, hphv, (Except.ok.inj hrun).symm⟩

namespace ParseInv

variable {data : List Byte} {s : ParseCtx}

theorem setHeader (hs : ParseInv data s) {header : ℕ} {h : DataHeader} (hwf : h.WellFormed) :
    ∀ h' ∈ (s.phv.setHeader header h).headers, h'.WellFormed := by
  intro h' hmem
  rcases List.mem_or_eq_of_mem_set hmem with hmem | rfl
  · exact hs.headers h' hmem
  · exact hwf

/-- A field gets a new content. -/
theorem setField (hs : ParseInv data s) {dst : ℕ × ℕ} {f f' : DataField} {phv : DataPHV}
    (hf : s.phv.getField dst = .ok f) (hnbits : f'.nbits = f.nbits) (hhidden : f'.hidden = f.hidden)
    (hrun : s.phv.setField dst f' = .ok phv) : ParseInv data { s with phv } := by
  obtain ⟨h, hh, hf⟩ := DataPHV.getField_eq_ok.mp hf
  obtain ⟨h', hh', hset⟩ := bind_eq_ok.mp hrun
  unfold DataPHV.getHeader at hh'
  rw [orFault_eq_ok] at hh'
  obtain rfl : h = h' := Option.some.inj (hh.symm.trans hh')
  obtain rfl := Except.ok.inj hset
  have hwf := (hs.headers h (List.mem_of_getElem? hh)).set hf hnbits hhidden
  exact ⟨hs.setHeader hwf, hs.bytesParsed⟩

/-- The extraction of a header, from inside the packet. -/
theorem extractHeader (hs : ParseInv data s) {p : Parser} {header : ℕ} {h : DataHeader}
    (hrun : p.extractHeader data s header = .ok h) :
    h.WellFormed ∧ s.bytesParsed + h.nbytesPacket ≤ data.length := by
  obtain ⟨h₀, hh₀, hrun⟩ := bind_eq_ok.mp hrun
  rw [DataPHV.getHeader, orFault_eq_ok] at hh₀
  obtain ⟨hwf, hlen⟩ := (hs.headers h₀ (List.mem_of_getElem? hh₀)).tryExtract hrun
  rw [List.length_drop] at hlen
  have hpos := hs.bytesParsed
  exact ⟨hwf, by omega⟩

/-- Every operation reads inside the packet. -/
theorem runOp (hs : ParseInv data s) {p : Parser} {op : ParserOp} {s' : ParseCtx}
    (hrun : p.runOp data s op = .ok s') : ParseInv data s' := by
  cases op with
  | extract header =>
    obtain ⟨h, hh, hrun⟩ := bind_eq_ok.mp hrun
    obtain rfl := Except.ok.inj hrun
    obtain ⟨hwf, hlen⟩ := hs.extractHeader hh
    exact ⟨hs.setHeader hwf, hlen⟩
  | extractStack stack =>
    obtain ⟨st, -, hrun⟩ := bind_eq_ok.mp hrun
    obtain ⟨header, -, hrun⟩ := bind_eq_ok.mp hrun
    obtain ⟨h, hh, hrun⟩ := bind_eq_ok.mp hrun
    obtain rfl := Except.ok.inj hrun
    obtain ⟨hwf, hlen⟩ := hs.extractHeader hh
    exact ⟨hs.setHeader hwf, hlen⟩
  | setField dst _ | setData dst _ | setLookAhead dst _ | setExpression dst _ =>
    obtain ⟨f, f', phv, hf, hnbits, hhidden, hphv, rfl⟩ :=
      Parser.runOp_set (show _ = some dst from rfl) hrun
    exact hs.setField hf hnbits hhidden hphv

end ParseInv

theorem LookAhead.avoids_peek_iff (l : LookAhead) (data : List Byte) :
    Avoids ParseFault.Unsafe (l.peek data) ↔ l.Fits data := by
  unfold LookAhead.peek LookAhead.Fits
  rw [avoids_orFault, exists_genericExtract_iff (Nat.mod_lt _ (by norm_num)), List.length_drop]
  simp only [ParseFault.Unsafe, true_implies]

namespace Parser

variable {p : Parser} {data : List Byte} {s : ParseCtx}

theorem avoids_extractHeader_iff (hs : ParseInv data s) (header : ℕ) :
    Avoids ParseFault.Unsafe (p.extractHeader data s header) ↔ p.HeaderFits data s header := by
  unfold extractHeader HeaderFits DataPHV.getHeader
  rw [avoids_bind, and_iff_right (avoids_id _)]
  refine forall_congr' fun h => ?_
  rw [orFault_eq_ok]
  refine forall_congr' fun hh => ?_
  exact DataHeader.avoids_tryExtract_iff (hs.headers h (List.mem_of_getElem? hh))

/-- An operation avoids the faults exactly when it fits. -/
theorem avoids_runOp_iff (hs : ParseInv data s) (op : ParserOp) :
    Avoids ParseFault.Unsafe (p.runOp data s op) ↔ p.OpFits data s op := by
  cases op with
  | extract header =>
    show Avoids _ (p.extractHeader data s header >>= _) ↔ _
    rw [avoids_bind, avoids_extractHeader_iff hs]
    exact and_iff_left fun _ _ => trivial
  | extractStack stack =>
    show Avoids _ (s.phv.getStack stack >>= _) ↔ _
    rw [avoids_bind, DataPHV.getStack, and_iff_right (avoids_id _)]
    refine forall_congr' fun st => ?_
    rw [orFault_eq_ok]
    refine forall_congr' fun _ => ?_
    rw [avoids_bind]
    unfold HeaderStack.getNext
    by_cases hroom : st.next < st.headers.length
    · rw [if_pos hroom, and_iff_right (avoids_id _), and_iff_right hroom]
      refine forall_congr' fun header => ?_
      rw [orFault_eq_ok]
      refine forall_congr' fun _ => ?_
      rw [avoids_bind, avoids_extractHeader_iff hs]
      exact and_iff_left fun _ _ => trivial
    · rw [if_neg hroom]
      exact iff_of_false (fun h => h.1 trivial) fun h => hroom h.1
  | setField dst src =>
    refine iff_of_true ?_ trivial
    refine (avoids_bind _ _).mpr ⟨DataPHV.avoids_getField _ _, fun f _ => ?_⟩
    refine (avoids_bind _ _).mpr ⟨DataPHV.avoids_getField _ _, fun g _ => ?_⟩
    exact (avoids_bind _ _).mpr ⟨DataPHV.avoids_setField _ _ _, fun _ _ => trivial⟩
  | setData dst src =>
    refine iff_of_true ?_ trivial
    refine (avoids_bind _ _).mpr ⟨DataPHV.avoids_getField _ _, fun f _ => ?_⟩
    exact (avoids_bind _ _).mpr ⟨DataPHV.avoids_setField _ _ _, fun _ _ => trivial⟩
  | setExpression dst eval =>
    refine iff_of_true ?_ trivial
    refine (avoids_bind _ _).mpr ⟨DataPHV.avoids_getField _ _, fun f _ => ?_⟩
    exact (avoids_bind _ _).mpr ⟨DataPHV.avoids_setField _ _ _, fun _ _ => trivial⟩
  | setLookAhead dst l =>
    have hfield : Avoids ParseFault.Unsafe (p.runOp data s (.setLookAhead dst l)) ↔
        ∀ f, s.phv.getField dst = .ok f → l.Fits (data.drop s.bytesParsed) := by
      show Avoids _ (s.phv.getField dst >>= _) ↔ _
      rw [avoids_bind, and_iff_right (DataPHV.avoids_getField _ _)]
      refine forall_congr' fun f => forall_congr' fun _ => ?_
      dsimp only
      have hset (f' : DataField) : Avoids ParseFault.Unsafe (s.phv.setField dst f' >>= fun phv =>
          pure { s with phv }) :=
        (avoids_bind _ _).mpr ⟨DataPHV.avoids_setField _ _ _, fun _ _ => trivial⟩
      split
      · next hwidth =>
        rw [avoids_bind, avoids_orFault, DataHeader.exists_extract_iff (Nat.mod_lt _ (by norm_num)),
          and_iff_left fun f' _ => hset f', ← hwidth, List.length_drop]
        unfold LookAhead.Fits nbitsToNbytes
        simp only [ParseFault.Unsafe, true_implies]
        omega
      · rw [avoids_bind, LookAhead.avoids_peek_iff, and_iff_left fun bytes _ => hset _]
    rw [hfield]
    simp only [DataPHV.getField_eq_ok]
    exact ⟨fun h h₀ f hh₀ hf => h f ⟨h₀, hh₀, hf⟩, fun h f ⟨h₀, hh₀, hf⟩ => h h₀ f hh₀ hf⟩

/-! ## The loop -/

theorem avoids_appendKey_iff (key : ByteContainer) (e : KeyEntry) :
    Avoids ParseFault.Unsafe (appendKey data s key e) ↔ EntryFits data s e := by
  unfold appendKey
  rw [avoids_bind, and_iff_left fun _ _ => avoids_pure _ _]
  cases e with
  | field header offset =>
    refine iff_of_true ?_ trivial
    exact (avoids_bind _ _).mpr ⟨DataPHV.avoids_getField _ _, fun _ _ => trivial⟩
  | stackField stack offset =>
    show Avoids _ (s.phv.getStack stack >>= _) ↔ _
    rw [avoids_bind, DataPHV.getStack, and_iff_right (avoids_id _)]
    refine forall_congr' fun st => ?_
    rw [orFault_eq_ok]
    refine forall_congr' fun _ => ?_
    rw [avoids_bind]
    unfold HeaderStack.getLast
    by_cases hsome : 0 < st.next
    · rw [if_pos hsome, and_iff_right (avoids_id _)]
      refine iff_of_true (fun header _ => ?_) hsome
      exact (avoids_bind _ _).mpr ⟨DataPHV.avoids_getField _ _, fun _ _ => trivial⟩
    · rw [if_neg hsome]
      exact iff_of_false (fun h => h.1 trivial) hsome
  | lookahead l => exact l.avoids_peek_iff _

theorem avoids_matchMasked (key mask input : ByteContainer) :
    Avoids ParseFault.Unsafe (matchMasked key mask input) := by
  induction key generalizing mask input with
  | nil => trivial
  | cons k key ih =>
    match mask, input with
    | [], _ => exact id
    | _ :: _, [] => exact id
    | m :: mask, b :: input =>
      rw [matchMasked]
      split
      · trivial
      · exact ih mask input

/-- The matches look at the key only. -/
theorem avoids_findCase (default : Option ℕ) (key : ByteContainer)
    (cases : List (SwitchCase × Option ℕ)) :
    Avoids ParseFault.Unsafe (findCase default key cases) := by
  induction cases with
  | nil => trivial
  | cons c cases ih =>
    obtain ⟨c, next⟩ := c
    refine (avoids_bind _ _).mpr ⟨?_, fun found _ => ?_⟩
    · cases c with
      | exact k => trivial
      | masked k mask => exact avoids_matchMasked k mask key
      | vset shadow => exact avoids_orFault.mpr fun h => h.elim
    · cases found with
      | true => trivial
      | false => exact ih

theorem avoids_findNextState_iff (hs : ParseInv data s) (st : ParseState) :
    Avoids ParseFault.Unsafe (p.findNextState data s st) ↔ p.StateFits data s st := by
  unfold findNextState StateFits
  rw [avoids_bind, avoids_foldlM_iff (fun s op s' hs h => ParseInv.runOp hs h)
    (fun s op hs => avoids_runOp_iff hs op) hs]
  refine and_congr_right fun _ => forall_congr' fun s' => forall_congr' fun _ => ?_
  cases st.hasSwitch with
  | false => simp
  | true =>
    have hcases (key : ByteContainer) : Avoids ParseFault.Unsafe
        (findCase st.default key st.cases >>= fun next => pure (s', next)) :=
      (avoids_bind _ _).mpr ⟨avoids_findCase _ _ _, fun _ _ => trivial⟩
    rw [if_neg (by simp), avoids_bind, and_iff_left fun key _ => hcases key,
      avoids_foldlM_iff (I := fun _ => True) (fun _ _ _ _ _ => trivial)
        (fun key e _ => avoids_appendKey_iff key e) trivial]
    simp only [true_implies]

/-- A turn of the loop reads inside the packet. -/
theorem turn_invariant {c c' : ParseCtx × Option ℕ} (hc : ParseInv data c.1)
    (hrun : p.turn data c = .ok c') : ParseInv data c'.1 := by
  obtain ⟨s, next⟩ := c
  cases next with
  | none =>
    obtain rfl := Except.ok.inj hrun
    exact hc
  | some i =>
    obtain ⟨st, -, hrun⟩ := bind_eq_ok.mp hrun
    obtain ⟨s', hs', hrun⟩ := bind_eq_ok.mp hrun
    have hinv : ParseInv data s' :=
      foldlM_invariant (fun s op s' hs h => ParseInv.runOp hs h) hc hs'
    split at hrun
    · obtain rfl := Except.ok.inj hrun
      exact hinv
    · obtain ⟨key, -, hrun⟩ := bind_eq_ok.mp hrun
      obtain ⟨next, -, hrun⟩ := bind_eq_ok.mp hrun
      obtain rfl := Except.ok.inj hrun
      exact hinv

theorem avoids_turn_iff {c : ParseCtx × Option ℕ} (hc : ParseInv data c.1) :
    Avoids ParseFault.Unsafe (p.turn data c) ↔ p.TurnFits data c := by
  obtain ⟨s, next⟩ := c
  cases next with
  | none => exact iff_of_true trivial trivial
  | some i =>
    show Avoids _ (orFault ParseFault.id p.states[i]? >>= _) ↔ _
    rw [avoids_bind, and_iff_right (avoids_id _)]
    refine forall_congr' fun st => ?_
    rw [orFault_eq_ok]
    exact forall_congr' fun _ => avoids_findNextState_iff hc st

end Parser

/-- The bytes that were read can be removed. -/
theorem Packet.avoids_remove {pkt : Packet} {bytes : ℕ}
    (hbytes : pkt.payloadSize + bytes ≤ pkt.buffer.data.length) :
    Avoids ParseFault.Unsafe (pkt.remove bytes) := by
  unfold Packet.remove PacketBuffer.pop
  rw [if_neg (by omega), dif_pos (by omega)]
  trivial

/-- Some parser ends in the fault for a packet that has just arrived. -/
def ParseFault.Reachable (fault : ParseFault) : Prop :=
  ∃ (p : Parser) (pkt : Packet), (∀ h ∈ pkt.phv.headers, h.WellFormed) ∧ pkt.payloadSize = 0 ∧
    p.parse 2 pkt = .error fault

end Bm
