/-
# Two views of validity

A packet header is valid by its flag, which the deparser and the expressions look at, and by its
hidden field `$valid$`, which a table key or an action reads.  `Header` (`headers.cpp`), `HeaderStack`
(`header_stacks.h`) and `PHV` (`phv.h`, `phv.cpp`) change them by different routes, and a PHV goes
from packet to packet through a pool (`phv_source.cpp`).

* `HeaderOk`: both views of a packet header are the same;
* `exec_ok`, `step_ok`: the operations on one PHV and on the pool keep that when they are `Sound`;
* `views_agree`: the PHVs that a run of sound operations reaches;
* `views_differ_reset`: `PHV::reset_headers` clears one view of a valid header.
-/
import Bmv2.HeaderStacks

namespace Bm

/-! ## Headers and PHVs as they are created -/

/-- `HeaderType::FInfo` of a field that is not hidden. -/
structure FInfo where
  bitwidth : ℕ
  isSigned : Bool

/-- A header of `PHVFactory`, with its type. -/
structure InstanceDesc where
  typeId : ℕ
  fields : List FInfo
  vlOffset : Option ℕ
  arithOffsets : Finset ℕ
  metadata : Bool

/-- The constructor of `Field`. -/
def DataField.create (nbits : ℕ) (arith isSigned hidden : Bool) : DataField where
  nbits := nbits
  bytes := List.replicate (nbitsToNbytes nbits) 0
  hidden := hidden
  isSigned := isSigned
  arith := arith
  value := 0

/-- The constructor of `Header`; the hidden field `$valid$` of one bit comes last. -/
def DataHeader.create (desc : InstanceDesc) : DataHeader where
  fields :=
    desc.fields.mapIdx (fun i info =>
      .create info.bitwidth (decide (i ∈ desc.arithOffsets)) info.isSigned false) ++
    [.create 1 (decide (desc.fields.length ∈ desc.arithOffsets)) false true]
  valid := false
  metadata := desc.metadata
  nbytesPacket := (desc.fields.map FInfo.bitwidth).sum / 8
  vlOffset := desc.vlOffset

/-- `PHVFactory`: the headers, and the headers that make up the stacks. -/
structure HeaderFactory where
  headers : List InstanceDesc
  headerStacks : List (List ℕ)
  /-- Headers of one type have the same fields. -/
  same_fields : ∀ d ∈ headers, ∀ e ∈ headers, d.typeId = e.typeId → d.fields = e.fields
  /-- The headers of a stack are packet headers of its type. -/
  stack_type : ∀ ids ∈ headerStacks, ∃ typeId, ∀ id ∈ ids, ∀ d : InstanceDesc, headers[id]? = some d →
    d.typeId = typeId ∧ d.metadata = false

/-- `PHVFactory::create`. -/
def HeaderFactory.create (factory : HeaderFactory) : DataPHV where
  headers := factory.headers.map DataHeader.create
  headerStacks := factory.headerStacks.map fun headers => ⟨headers, 0⟩

/-! ## Operations on one PHV -/

namespace DataPHV

/-- A call on a header. -/
def callHeader (phv : DataPHV) (header : ℕ) (f : DataHeader → Option DataHeader) :
    Option DataPHV := do
  let h ← phv.headers[header]?
  let h ← f h
  pure (phv.setHeader header h)

/-- A call on a stack, whose references are followed. -/
def callStack (phv : DataPHV) (stack : ℕ)
    (call : StackedHeaders → Option (StackedHeaders × ℕ)) : Option DataPHV := do
  let st ← phv.headerStacks[stack]?
  let headers ← st.headers.mapM (phv.headers[·]?)
  let (s, _) ← call ⟨headers, st.next⟩
  pure
    { headers := (st.headers.zip s.headers).foldl (fun headers p => headers.set p.1 p.2) phv.headers
      headerStacks := phv.headerStacks.set stack { st with next := s.next } }

/-- `PHV::reset`. -/
def resetPHV (phv : DataPHV) : DataPHV :=
  { phv with headers := phv.headers.map DataHeader.markInvalid }

/-- `PHV::reset_header_stacks`. -/
def resetHeaderStacks (phv : DataPHV) : DataPHV :=
  { phv with headerStacks := phv.headerStacks.map fun st => { st with next := 0 } }

/-- `PHV::reset_headers`. -/
def resetHeaders (phv : DataPHV) : DataPHV :=
  { phv with headers := phv.headers.map DataHeader.reset }

end DataPHV

/-- The calls on a stack. -/
inductive StackCall where
  | pushFrontOne
  | pushFront (num : ℕ)
  | popFrontOne
  | popFront (num : ℕ)
  | pushBack
  | popBack

/-- The method that is called. -/
def StackCall.exec : StackCall → StackedHeaders → Option (StackedHeaders × ℕ)
  | .pushFrontOne, s => s.pushFrontOne
  | .pushFront num, s => s.pushFront num
  | .popFrontOne, s => s.popFrontOne
  | .popFront num, s => s.popFront num
  | .pushBack, s => s.pushBack
  | .popBack, s => s.popBack

/-- The operations on one PHV: methods of `Header`, header primitives, a field that is set, the
stacks, and methods of `PHV`. -/
inductive HeaderOp where
  | extract (header : ℕ) (vlExpr : List DataField → ℤ) (data : List Byte)
  | markValid (header : ℕ)
  | markInvalid (header : ℕ)
  | resetHeader (header : ℕ)
  | addHeader (header : ℕ)
  | removeHeader (header : ℕ)
  | copyHeader (dst src : ℕ)
  | setField (header field : ℕ) (value : ℤ)
  | stack (stack : ℕ) (call : StackCall)
  | reset
  | resetHeaderStacks
  | resetMetadata
  | resetHeaders

namespace HeaderFactory

variable (factory : HeaderFactory)

/-- `get_header_type_id`. -/
def typeId (header : ℕ) : Option ℕ := factory.headers[header]?.map InstanceDesc.typeId

/-- One of the operations; `none` when it ends the process. -/
def exec (phv : DataPHV) : HeaderOp → Option DataPHV
  | .extract header vlExpr data => phv.callHeader header fun h => h.extract vlExpr data
  | .markValid header => phv.callHeader header fun h => some h.markValid
  | .markInvalid header => phv.callHeader header fun h => some h.markInvalid
  | .resetHeader header => phv.callHeader header fun h => some h.reset
  | .addHeader header => phv.callHeader header fun h =>
      some (if h.isValid then h else h.reset.markValid)
  | .removeHeader header => phv.callHeader header fun h =>
      some (if h.isValid then h.markInvalid else h)
  | .copyHeader dst src => do
      let g ← phv.headers[src]?
      phv.callHeader dst fun h =>
        if !g.isValid then some h.markInvalid
        else if factory.typeId dst ≠ factory.typeId src then none
        else
          let h := h.markValid
          some { h with fields := List.zipWith (fun f g => f.set g.value) h.fields g.fields }
  | .setField header field value => phv.callHeader header fun h =>
      some { h with fields := h.fields.modify field (·.set value) }
  | .stack stack call => phv.callStack stack call.exec
  | .reset => some phv.resetPHV
  | .resetHeaderStacks => some phv.resetHeaderStacks
  | .resetMetadata => some phv.resetMetadata
  | .resetHeaders => some phv.resetHeaders

end HeaderFactory

/-! ## The pool -/

/-- `PHVSource` for one context: the PHVs of the pool and those that packets have. -/
structure PhvSource where
  pool : List DataPHV
  inUse : List DataPHV

/-- What packets do with their PHVs. -/
inductive PhvOp where
  | get
  | release (p : ℕ)
  | cloneWithPHV (p : ℕ)
  | cloneWithPHVResetMetadata (p : ℕ)
  | copyHeaders (dst src : ℕ)
  | on (p : ℕ) (op : HeaderOp)

namespace HeaderFactory

variable (factory : HeaderFactory)

/-- `PHVPool::get`: the PHV that was released last, or a new one. -/
def get (s : PhvSource) : DataPHV × List DataPHV :=
  match s.pool.getLast? with
  | some phv => (phv, s.pool.dropLast)
  | none => (factory.create, [])

/-- One step of the packets. -/
def step (s : PhvSource) : PhvOp → Option PhvSource
  | .get =>
      let (phv, pool) := factory.get s
      some ⟨pool, s.inUse ++ [phv]⟩
  | .release p => do
      let phv ← s.inUse[p]?
      pure ⟨s.pool ++ [phv.resetPHV.resetHeaderStacks], s.inUse.eraseIdx p⟩
  | .cloneWithPHV p => do
      let src ← s.inUse[p]?
      let (phv, pool) := factory.get s
      pure ⟨pool, s.inUse ++ [phv.copyHeaders src]⟩
  | .cloneWithPHVResetMetadata p => do
      let src ← s.inUse[p]?
      let (phv, pool) := factory.get s
      pure ⟨pool, s.inUse ++ [(phv.copyHeaders src).resetMetadata]⟩
  | .copyHeaders dst src => do
      let phv ← s.inUse[dst]?
      let src ← s.inUse[src]?
      pure { s with inUse := s.inUse.set dst (phv.copyHeaders src) }
  | .on p op => do
      let phv ← s.inUse[p]?
      let phv ← factory.exec phv op
      pure { s with inUse := s.inUse.set p phv }

end HeaderFactory

/-! ## The views -/

/-- The field holds 1 or 0, in its bytes and in its value. -/
def DataField.Shows (f : DataField) (b : Bool) : Prop :=
  f.bytes = [if b then 1 else 0] ∧ f.value = if b then 1 else 0

/-- **The two views** of a packet header are the same. -/
def DataHeader.ViewsAgree (h : DataHeader) : Prop :=
  h.metadata = false → ∃ f, h.fields.getLast? = some f ∧ f.Shows h.valid

/-- The operations on a PHV that keep the views the same: fields are only reset in a header that is
not valid, a packet header is not copied from metadata, and `$valid$` is not written. -/
def HeaderOp.Sound (phv : DataPHV) : HeaderOp → Prop
  | .resetHeader header => ∀ h : DataHeader, phv.headers[header]? = some h →
      h.metadata = true ∨ h.valid = false
  | .copyHeader dst src => ∀ h g : DataHeader, phv.headers[dst]? = some h →
      phv.headers[src]? = some g → h.metadata = true ∨ g.metadata = false
  | .setField header field _ => ∀ h : DataHeader, phv.headers[header]? = some h →
      h.metadata = true ∨ field + 1 < h.fields.length
  | .resetHeaders => ∀ h ∈ phv.headers, h.metadata = true ∨ h.valid = false
  | _ => True

/-- `PHV::copy_headers` is called for a PHV in which the headers are not valid that are not valid in
the other one. -/
def PhvOp.Sound (s : PhvSource) : PhvOp → Prop
  | .copyHeaders dst src => ∀ phv other : DataPHV, s.inUse[dst]? = some phv →
      s.inUse[src]? = some other → ∀ (i : ℕ) (h g : DataHeader), phv.headers[i]? = some h →
        other.headers[i]? = some g → h.metadata = true ∨ g.valid = true ∨ h.valid = false
  | .on p op => ∀ phv : DataPHV, s.inUse[p]? = some phv → op.Sound phv
  | _ => True

/-! ## The field `$valid$` -/

namespace DataField

/-- A hidden unsigned field of one bit. -/
structure IsValidField (f : DataField) : Prop where
  nbits : f.nbits = 1
  hidden : f.hidden = true
  unsigned : f.isSigned = false

variable {f g : DataField} {b : Bool}

theorem IsValidField.set (hf : f.IsValidField) (value : ℤ) : (f.set value).IsValidField where
  nbits := by rw [set_nbits, hf.nbits]
  hidden := by rw [set_hidden, hf.hidden]
  unsigned := by rw [set_isSigned, hf.unsigned]

theorem IsValidField.copyValue (hf : f.IsValidField) (src : DataField) :
    (f.copyValue src).IsValidField := ⟨hf.nbits, hf.hidden, hf.unsigned⟩

theorem shows_set (hf : f.IsValidField) : (f.set (if b then 1 else 0)).Shows b := by
  have hbytes := f.set_bytes (if b then 1 else 0) (by simp [hf.unsigned])
  have hvalue : (f.set (if b then 1 else 0)).value = (if b then 1 else 0) % 2 ^ 1 := by
    rw [DataField.set, exportBytes]
    simp only [hf.unsigned, hf.nbits, Bool.not_false, if_true]
  rw [Field.nbytes, hf.nbits] at hbytes
  refine ⟨hbytes.trans ?_, hvalue.trans ?_⟩
  · cases b <;> decide
  · cases b <;> decide

theorem Shows.set (hf : f.IsValidField) (hg : g.Shows b) : (f.set g.value).Shows b := by
  rw [hg.2]
  exact shows_set hf

theorem Shows.copyValue (hg : g.Shows b) (f : DataField) : (f.copyValue g).Shows b := hg

end DataField

/-! ## One header -/

/-- A header with `n` fields before `$valid$`, whose views agree unless it is metadata. -/
def HeaderOk (n : ℕ) (metadata : Bool) (h : DataHeader) : Prop :=
  h.metadata = metadata ∧ ∃ fs v, h.fields = fs ++ [v] ∧ fs.length = n ∧ v.IsValidField ∧
    (metadata = false → v.Shows h.valid)

namespace HeaderOk

variable {n : ℕ} {metadata metadata' : Bool} {h g : DataHeader}

theorem viewsAgree (hok : HeaderOk n metadata h) : h.ViewsAgree := by
  obtain ⟨hm, fs, v, hfields, -, -, hshows⟩ := hok
  intro hpacket
  exact ⟨v, by rw [hfields, List.getLast?_concat], hshows (hm.symm.trans hpacket)⟩

theorem create (desc : InstanceDesc) :
    HeaderOk desc.fields.length desc.metadata (.create desc) :=
  ⟨rfl, _, _, rfl, List.length_mapIdx, ⟨rfl, rfl, rfl⟩, fun _ => ⟨rfl, rfl⟩⟩

theorem modify_last (fs : List DataField) (v : DataField) (f : DataField → DataField) :
    (fs ++ [v]).modify ((fs ++ [v]).length - 1) f = fs ++ [f v] := by
  rw [List.length_append, List.length_singleton, Nat.add_sub_cancel,
    List.modify_eq_take_cons_drop (by simp)]
  simp

theorem modify_append (fs : List DataField) (v : DataField) (f : DataField → DataField) {i : ℕ}
    (hi : i < fs.length) : (fs ++ [v]).modify i f = fs.modify i f ++ [v] := by
  rw [List.modify_eq_take_cons_drop (by simp; omega), List.modify_eq_take_cons_drop hi,
    List.take_append_of_le_length (by omega), List.drop_append_of_le_length (by omega),
    List.getElem_append_left hi, List.append_assoc]
  rfl

theorem markValid (hok : HeaderOk n metadata h) : HeaderOk n metadata h.markValid := by
  obtain ⟨hm, fs, v, hfields, hlen, hv, -⟩ := hok
  refine ⟨hm, fs, v.set 1, ?_, hlen, hv.set 1, fun _ => DataField.shows_set (b := true) hv⟩
  rw [DataHeader.markValid, hfields]
  exact modify_last fs v _

theorem markInvalid (hok : HeaderOk n metadata h) : HeaderOk n metadata h.markInvalid := by
  obtain ⟨hm, fs, v, hfields, hlen, hv, -⟩ := hok
  refine ⟨hm, fs, v.set 0, ?_, hlen, hv.set 0, fun _ => DataField.shows_set (b := false) hv⟩
  rw [DataHeader.markInvalid, hfields]
  exact modify_last fs v _

theorem reset (hok : HeaderOk n metadata h) (hinvalid : h.metadata = true ∨ h.valid = false) :
    HeaderOk n metadata h.reset := by
  obtain ⟨hm, fs, v, hfields, hlen, hv, -⟩ := hok
  refine ⟨hm, fs.map (·.set 0), v.set 0, ?_, by rw [List.length_map, hlen], hv.set 0, fun hpacket => ?_⟩
  · rw [DataHeader.reset, hfields, List.map_append]
    rfl
  · have hvalid : h.reset.valid = false := by
      rcases hinvalid with hmeta | hvalid
      · rw [hm, hpacket] at hmeta
        cases hmeta
      · exact hvalid
    rw [hvalid]
    exact DataField.shows_set (b := false) hv

/-- Other fields than `$valid$` are replaced. -/
theorem replace (hok : HeaderOk n metadata h) {fields : List DataField}
    (hfields : ∀ fs v, h.fields = fs ++ [v] → v.hidden = true →
      ∃ fs', fields = fs' ++ [v] ∧ fs'.length = fs.length) (nbytesPacket : ℕ) :
    HeaderOk n metadata { h with fields, nbytesPacket } := by
  obtain ⟨hm, fs, v, heq, hlen, hv, hshows⟩ := hok
  obtain ⟨fs', heq', hlen'⟩ := hfields fs v heq hv.hidden
  exact ⟨hm, fs', v, heq', hlen'.trans hlen, hv, hshows⟩

theorem setField (hok : HeaderOk n metadata h) {field : ℕ}
    (hfield : h.metadata = true ∨ field + 1 < h.fields.length) (value : ℤ) :
    HeaderOk n metadata { h with fields := h.fields.modify field (·.set value) } := by
  obtain ⟨hm, fs, v, hfields, hlen, hv, hshows⟩ := hok
  have hlength : h.fields.length = fs.length + 1 := by rw [hfields]; simp
  by_cases hlast : field < fs.length
  · refine ⟨hm, fs.modify field (·.set value), v, ?_, by rw [List.length_modify, hlen], hv, hshows⟩
    show h.fields.modify field _ = _
    rw [hfields, modify_append fs v _ hlast]
  · have hmeta : metadata = true := by
      rcases hfield with hmeta | hlt
      · exact hm.symm.trans hmeta
      · omega
    -- nothing is asked of metadata but the shape
    by_cases heq : field = fs.length
    · refine ⟨hm, fs, v.set value, ?_, hlen, hv.set value, fun hpacket => ?_⟩
      · show h.fields.modify field _ = _
        rw [hfields, heq]
        have hmodify := modify_last fs v (·.set value)
        rwa [List.length_append, List.length_singleton, Nat.add_sub_cancel] at hmodify
      · rw [hmeta] at hpacket
        cases hpacket
    · refine ⟨hm, fs, v, ?_, hlen, hv, hshows⟩
      show h.fields.modify field _ = _
      rw [hfields]
      exact List.modify_eq_self (by rw [List.length_append, List.length_singleton]; omega)

theorem takeFields (hok : HeaderOk n metadata h) (hg : HeaderOk n metadata g) (valid : Bool)
    (hvalid : valid = g.valid) : HeaderOk n metadata { h.copyFields g with valid } := by
  obtain ⟨hm, fs, v, hfields, hlen, hv, -⟩ := hok
  obtain ⟨-, gs, w, gfields, glen, -, gshows⟩ := hg
  refine ⟨hm, List.zipWith DataField.copyValue fs gs, v.copyValue w, ?_, ?_, hv.copyValue w,
    fun hpacket => ?_⟩
  · show List.zipWith _ h.fields g.fields = _
    rw [hfields, gfields, List.zipWith_append (hlen.trans glen.symm)]
    rfl
  · rw [List.length_zipWith, hlen, glen, min_self]
  · show (v.copyValue w).Shows valid
    rw [hvalid]
    exact (gshows hpacket).copyValue v

theorem takeValues (hok : HeaderOk n metadata h) (hg : HeaderOk n metadata g) :
    HeaderOk n metadata (h.takeValues g) := hok.takeFields hg g.valid rfl

/-- The loop of `extract` stops at `$valid$`. -/
theorem extractFields_last {fs out : List DataField} {v : DataField} (hv : v.hidden = true)
    {data : List Byte} {off : ℕ} (hrun : DataHeader.extractFields (fs ++ [v]) data off = some out) :
    ∃ fs', out = fs' ++ [v] ∧ fs'.length = fs.length := by
  induction fs generalizing data off out with
  | nil =>
    rw [List.nil_append, DataHeader.extractFields, if_pos hv] at hrun
    exact ⟨[], (Option.some.inj hrun).symm, rfl⟩
  | cons f fs ih =>
    rw [List.cons_append, DataHeader.extractFields] at hrun
    split at hrun
    · exact ⟨f :: fs, (Option.some.inj hrun).symm, rfl⟩
    · obtain ⟨f', -, hrun⟩ := Option.bind_eq_some_iff.mp hrun
      obtain ⟨rest, hrest, hrun⟩ := Option.bind_eq_some_iff.mp hrun
      obtain rfl := Option.some.inj hrun
      obtain ⟨fs', rfl, hlen⟩ := ih hrest
      exact ⟨f' :: fs', rfl, by rw [List.length_cons, List.length_cons, hlen]⟩

theorem extractVLFields_last {vlOffset : ℕ} {vlExpr : List DataField → ℤ} {v : DataField}
    (hv : v.hidden = true) {fs : List DataField} {done : List DataField} {data : List Byte}
    {off nbits : ℕ} {out : List DataField × ℕ}
    (hrun : DataHeader.extractVLFields vlOffset vlExpr done (fs ++ [v]) data off nbits = some out) :
    ∃ fs', out.1 = fs' ++ [v] ∧ fs'.length = done.length + fs.length := by
  induction fs generalizing done data off nbits with
  | nil =>
    rw [List.nil_append, DataHeader.extractVLFields, if_pos hv] at hrun
    obtain rfl := Option.some.inj hrun
    exact ⟨done, rfl, rfl⟩
  | cons f fs ih =>
    rw [List.cons_append, DataHeader.extractVLFields] at hrun
    split at hrun
    · obtain rfl := Option.some.inj hrun
      exact ⟨done ++ f :: fs, by simp, by simp⟩
    · have hnext (f' : DataField)
          (hrest : DataHeader.extractVLFields vlOffset vlExpr (done ++ [f']) (fs ++ [v])
            (data.drop ((off + f'.nbits) / 8)) ((off + f'.nbits) % 8) (nbits + f'.nbits) = some out) :
          ∃ fs', out.1 = fs' ++ [v] ∧ fs'.length = done.length + (f :: fs).length := by
        obtain ⟨fs', hout, hlen⟩ := ih hrest
        refine ⟨fs', hout, ?_⟩
        rw [hlen, List.length_append, List.length_singleton, List.length_cons]
        omega
      dsimp only at hrun
      split at hrun
      · obtain ⟨f', -, hrest⟩ := Option.bind_eq_some_iff.mp hrun
        exact hnext f' hrest
      · obtain ⟨f', -, hrest⟩ := Option.bind_eq_some_iff.mp hrun
        exact hnext f' hrest

theorem extract (hok : HeaderOk n metadata h) {vlExpr : List DataField → ℤ} {data : List Byte}
    (hrun : h.extract vlExpr data = some g) : HeaderOk n metadata g := by
  unfold DataHeader.extract at hrun
  split at hrun
  · obtain ⟨fields, hfields, hrun⟩ := Option.bind_eq_some_iff.mp hrun
    obtain rfl := Option.some.inj hrun
    refine (hok.replace (fun fs v heq hv => ?_) h.nbytesPacket).markValid
    rw [heq] at hfields
    exact extractFields_last hv hfields
  · next vlOffset _ =>
    obtain ⟨⟨fields, nbits⟩, hfields, hrun⟩ := Option.bind_eq_some_iff.mp hrun
    dsimp only at hrun
    split at hrun
    · obtain rfl := Option.some.inj hrun
      refine (hok.replace (fun fs v heq hv => ?_) (nbits / 8)).markValid
      rw [heq] at hfields
      obtain ⟨fs', hout, hlen⟩ := extractVLFields_last hv hfields
      exact ⟨fs', hout, by rw [hlen]; exact Nat.zero_add _⟩
    · cases hrun

/-- The fields of a valid header are copied one by one. -/
theorem setFields (hok : HeaderOk n metadata h) (hg : HeaderOk n metadata' g)
    (hvalid : metadata = false → g.valid = h.valid ∧ metadata' = false) :
    HeaderOk n metadata
      { h with fields := List.zipWith (fun f f' => f.set f'.value) h.fields g.fields } := by
  obtain ⟨hm, fs, v, hfields, hlen, hv, -⟩ := hok
  obtain ⟨-, gs, w, gfields, glen, -, gshows⟩ := hg
  refine ⟨hm, List.zipWith (fun f f' => f.set f'.value) fs gs, v.set w.value, ?_, ?_, hv.set _,
    fun hpacket => ?_⟩
  · show List.zipWith _ h.fields g.fields = _
    rw [hfields, gfields, List.zipWith_append (hlen.trans glen.symm)]
    rfl
  · rw [List.length_zipWith, hlen, glen, min_self]
  · obtain ⟨heq, hpacket'⟩ := hvalid hpacket
    show (v.set w.value).Shows h.valid
    rw [← heq]
    exact (gshows hpacket').set hv

/-- One header of `copy_headers`. -/
theorem copyHeader (hok : HeaderOk n metadata h) (hg : HeaderOk n metadata g)
    (hstale : h.metadata = true ∨ g.valid = true ∨ h.valid = false) :
    HeaderOk n metadata
      (let h' := { h with valid := g.valid, metadata := g.metadata }
       if h'.valid || h'.metadata then h'.copyFields g else h') := by
  have hmeta : g.metadata = h.metadata := hg.1.trans hok.1.symm
  dsimp only
  rw [hmeta]
  split
  · exact hok.takeFields hg g.valid rfl
  · next hno =>
    rw [Bool.or_eq_true, not_or, Bool.not_eq_true, Bool.not_eq_true] at hno
    have hvalid : h.valid = g.valid := by
      rcases hstale with h' | h' | h'
      · rw [hno.2] at h'
        cases h'
      · rw [hno.1] at h'
        cases h'
      · rw [h', hno.1]
    rw [← hvalid]
    exact hok

end HeaderOk

/-! ## The headers of a stack -/

namespace StackedHeaders

variable {n : ℕ} {headers headers' : List DataHeader}

/-- The headers of a stack are packet headers whose views agree. -/
def AllOk (n : ℕ) (headers : List DataHeader) : Prop := ∀ h ∈ headers, HeaderOk n false h

theorem AllOk.set {i : ℕ} {h : DataHeader} (hok : AllOk n headers) (hh : HeaderOk n false h) :
    AllOk n (headers.set i h) := by
  intro g hg
  rcases List.mem_or_eq_of_mem_set hg with hg | rfl
  · exact hok g hg
  · exact hh

theorem AllOk.swapPlaces {i j : ℕ} (hok : AllOk n headers)
    (h : swapPlaces headers i j = some headers') : AllOk n headers' := by
  obtain ⟨a, ha, h⟩ := Option.bind_eq_some_iff.mp h
  obtain ⟨b, hb, h⟩ := Option.bind_eq_some_iff.mp h
  obtain rfl := Option.some.inj h
  have ha := hok a (List.mem_of_getElem? ha)
  have hb := hok b (List.mem_of_getElem? hb)
  exact (hok.set (ha.takeValues hb)).set (hb.takeValues ha)

theorem AllOk.modifyPlace {f : DataHeader → DataHeader} {i : ℕ} (hok : AllOk n headers)
    (hf : ∀ g, HeaderOk n false g → HeaderOk n false (f g))
    (h : modifyPlace f headers i = some headers') : AllOk n headers' := by
  obtain ⟨g, hg, h⟩ := Option.bind_eq_some_iff.mp h
  obtain rfl := Option.some.inj h
  exact hok.set (hf g (hok g (List.mem_of_getElem? hg)))

/-- A call on a stack exchanges headers and marks them. -/
theorem exec_invariant {I : List DataHeader → Prop}
    (hswap : ∀ hs hs' i j, I hs → swapPlaces hs i j = some hs' → I hs')
    (hvalid : ∀ hs hs' i, I hs → modifyPlace DataHeader.markValid hs i = some hs' → I hs')
    (hinvalid : ∀ hs hs' i, I hs → modifyPlace DataHeader.markInvalid hs i = some hs' → I hs')
    {s : StackedHeaders} {call : StackCall} {p : StackedHeaders × ℕ} (hI : I s.headers)
    (h : call.exec s = some p) : I p.1.headers := by
  have hswaps {other : ℕ → ℕ} {places : List ℕ} {hs : List DataHeader}
      (hrun : places.foldlM (fun hs i => swapPlaces hs i (other i)) s.headers = some hs) : I hs :=
    foldlM_some_invariant (fun _ _ _ hI hstep => hswap _ _ _ _ hI hstep) hI hrun
  cases call with
  | pushFrontOne =>
    rw [StackCall.exec, pushFrontOne] at h
    generalize (if s.next < s.headers.length then s.next + 1 else s.next) = next at h
    split at h
    · cases h
    · obtain ⟨headers₁, hrun, h⟩ := Option.bind_eq_some_iff.mp h
      obtain ⟨headers₂, hmark, h⟩ := Option.bind_eq_some_iff.mp h
      obtain rfl := Option.some.inj h
      exact hvalid _ _ _ (hswaps hrun) hmark
  | pushFront num =>
    rw [StackCall.exec, pushFront] at h
    dsimp only at h
    split at h
    · exact Option.some.inj h ▸ hI
    · split at h
      · cases h
      · obtain ⟨headers₁, hrun, h⟩ := Option.bind_eq_some_iff.mp h
        obtain ⟨headers₂, hmark, h⟩ := Option.bind_eq_some_iff.mp h
        obtain rfl := Option.some.inj h
        exact foldlM_some_invariant (fun _ _ _ hI hstep => hvalid _ _ _ hI hstep) (hswaps hrun) hmark
  | popFrontOne =>
    rw [StackCall.exec, popFrontOne] at h
    split at h
    · exact Option.some.inj h ▸ hI
    · obtain ⟨headers₁, hrun, h⟩ := Option.bind_eq_some_iff.mp h
      obtain ⟨headers₂, hmark, h⟩ := Option.bind_eq_some_iff.mp h
      obtain rfl := Option.some.inj h
      exact hinvalid _ _ _ (hswaps hrun) hmark
  | popFront num =>
    rw [StackCall.exec, popFront] at h
    split at h
    · exact Option.some.inj h ▸ hI
    · obtain ⟨headers₁, hrun, h⟩ := Option.bind_eq_some_iff.mp h
      obtain ⟨headers₂, hmark, h⟩ := Option.bind_eq_some_iff.mp h
      obtain rfl := Option.some.inj h
      exact foldlM_some_invariant (fun _ _ _ hI hstep => hinvalid _ _ _ hI hstep) (hswaps hrun) hmark
  | pushBack =>
    rw [StackCall.exec, pushBack] at h
    split at h
    · exact Option.some.inj h ▸ hI
    · obtain ⟨headers₁, hmark, h⟩ := Option.bind_eq_some_iff.mp h
      obtain rfl := Option.some.inj h
      exact hvalid _ _ _ hI hmark
  | popBack =>
    rw [StackCall.exec, popBack] at h
    split at h
    · exact Option.some.inj h ▸ hI
    · obtain ⟨headers₁, hmark, h⟩ := Option.bind_eq_some_iff.mp h
      obtain rfl := Option.some.inj h
      exact hinvalid _ _ _ hI hmark

/-- **A call on a stack.** -/
theorem exec_allOk {s : StackedHeaders} {call : StackCall} {p : StackedHeaders × ℕ}
    (hok : AllOk n s.headers) (h : call.exec s = some p) : AllOk n p.1.headers :=
  exec_invariant (fun _ _ _ _ hok hswap => hok.swapPlaces hswap)
    (fun _ _ _ hok hmark => hok.modifyPlace (fun _ => HeaderOk.markValid) hmark)
    (fun _ _ _ hok hmark => hok.modifyPlace (fun _ => HeaderOk.markInvalid) hmark) hok h

end StackedHeaders

/-! ## One PHV -/

namespace HeaderFactory

variable {factory : HeaderFactory} {phv phv' src : DataPHV}

/-- The headers of a PHV of the factory, with the views that agree. -/
structure PhvOk (factory : HeaderFactory) (phv : DataPHV) : Prop where
  headers : List.Forall₂ (fun d h => HeaderOk d.fields.length d.metadata h) factory.headers phv.headers
  headerStacks : phv.headerStacks.map HeaderStack.headers = factory.headerStacks

theorem phvOk_create (factory : HeaderFactory) : PhvOk factory factory.create where
  headers := by
    rw [create, List.forall₂_map_right_iff, List.forall₂_same]
    exact fun d _ => .create d
  headerStacks := by
    rw [create, List.map_map]
    exact List.map_id _

theorem PhvOk.getElem? (hok : PhvOk factory phv) {i : ℕ} {h : DataHeader}
    (hget : phv.headers[i]? = some h) :
    ∃ d, factory.headers[i]? = some d ∧ HeaderOk d.fields.length d.metadata h := by
  have hrel := List.forall₂_iff_get.mp hok.headers
  obtain ⟨hi, rfl⟩ := List.getElem?_eq_some_iff.mp hget
  have hi' : i < factory.headers.length := by rw [hrel.1]; exact hi
  exact ⟨_, List.getElem?_eq_getElem hi', hrel.2 i hi' hi⟩

theorem forall₂_set {α β : Type*} {R : α → β → Prop} {as : List α} {bs : List β}
    (h : List.Forall₂ R as bs) {i : ℕ} {a : α} {b : β} (ha : as[i]? = some a) (hab : R a b) :
    List.Forall₂ R as (bs.set i b) := by
  induction h generalizing i with
  | nil => exact .nil
  | cons hhead htail ih =>
    cases i with
    | zero =>
      obtain rfl := Option.some.inj ha
      exact .cons hab htail
    | succ i => exact .cons hhead (ih ha)

theorem PhvOk.setHeader (hok : PhvOk factory phv) {i : ℕ} {d : InstanceDesc} {h : DataHeader}
    (hd : factory.headers[i]? = some d) (hh : HeaderOk d.fields.length d.metadata h) :
    PhvOk factory (phv.setHeader i h) := ⟨forall₂_set hok.headers hd hh, hok.headerStacks⟩

/-- All headers are changed. -/
theorem PhvOk.mapHeaders (hok : PhvOk factory phv) {f : DataHeader → DataHeader}
    (hf : ∀ h ∈ phv.headers, ∀ n metadata, HeaderOk n metadata h → HeaderOk n metadata (f h)) :
    PhvOk factory { phv with headers := phv.headers.map f } where
  headers := by
    rw [List.forall₂_map_right_iff, List.forall₂_iff_get]
    have hrel := List.forall₂_iff_get.mp hok.headers
    exact ⟨hrel.1, fun i hi hi' => hf _ (List.getElem_mem hi') _ _ (hrel.2 i hi hi')⟩
  headerStacks := hok.headerStacks

theorem PhvOk.callHeader (hok : PhvOk factory phv) {i : ℕ} {f : DataHeader → Option DataHeader}
    (hf : ∀ h h' d, phv.headers[i]? = some h → factory.headers[i]? = some d →
      HeaderOk d.fields.length d.metadata h → f h = some h' →
        HeaderOk d.fields.length d.metadata h')
    (h : phv.callHeader i f = some phv') : PhvOk factory phv' := by
  obtain ⟨g, hg, h⟩ := Option.bind_eq_some_iff.mp h
  obtain ⟨g', hg', h⟩ := Option.bind_eq_some_iff.mp h
  obtain rfl := Option.some.inj h
  obtain ⟨d, hd, hgok⟩ := hok.getElem? hg
  exact hok.setHeader hd (hf g g' d hg hd hgok hg')

/-- The references of a stack lead to headers of the PHV. -/
theorem mem_of_mapM {ids : List ℕ} {headers : List DataHeader}
    (h : ids.mapM (phv.headers[·]?) = some headers) :
    ∀ g ∈ headers, ∃ id ∈ ids, phv.headers[id]? = some g := by
  induction ids generalizing headers with
  | nil =>
    obtain rfl := Option.some.inj h
    exact fun g hg => absurd hg List.not_mem_nil
  | cons id ids ih =>
    rw [List.mapM_cons] at h
    obtain ⟨a, ha, h⟩ := Option.bind_eq_some_iff.mp h
    obtain ⟨rest, hrest, h⟩ := Option.bind_eq_some_iff.mp h
    obtain rfl := Option.some.inj h
    intro g hg
    rcases List.mem_cons.mp hg with rfl | hg
    · exact ⟨id, List.mem_cons_self, ha⟩
    · obtain ⟨id', hid', hget⟩ := ih hrest g hg
      exact ⟨id', List.mem_cons_of_mem _ hid', hget⟩

/-- The headers of a stack have as many fields as one another. -/
theorem exists_stack_fields (factory : HeaderFactory) {ids : List ℕ}
    (hids : ids ∈ factory.headerStacks) :
    ∃ n, ∀ id ∈ ids, ∀ d : InstanceDesc, factory.headers[id]? = some d →
      d.fields.length = n ∧ d.metadata = false := by
  obtain ⟨typeId, htype⟩ := factory.stack_type ids hids
  by_cases hany : ∃ id ∈ ids, ∃ d : InstanceDesc, factory.headers[id]? = some d
  · obtain ⟨id₀, hid₀, d₀, hd₀⟩ := hany
    refine ⟨d₀.fields.length, fun id hid d hd => ⟨?_, (htype id hid d hd).2⟩⟩
    rw [factory.same_fields d (List.mem_of_getElem? hd) d₀ (List.mem_of_getElem? hd₀)
      ((htype id hid d hd).1.trans (htype id₀ hid₀ d₀ hd₀).1.symm)]
  · exact ⟨0, fun id hid d hd => absurd ⟨id, hid, d, hd⟩ hany⟩

theorem PhvOk.callStack (hok : PhvOk factory phv) {stack : ℕ} {call : StackCall}
    (h : phv.callStack stack call.exec = some phv') : PhvOk factory phv' := by
  obtain ⟨st, hst, h⟩ := Option.bind_eq_some_iff.mp h
  obtain ⟨headers, hheaders, h⟩ := Option.bind_eq_some_iff.mp h
  obtain ⟨⟨s, num⟩, hcall, h⟩ := Option.bind_eq_some_iff.mp h
  obtain rfl := Option.some.inj h
  have hids : st.headers ∈ factory.headerStacks := by
    rw [← hok.headerStacks]
    exact List.mem_map.mpr ⟨st, List.mem_of_getElem? hst, rfl⟩
  obtain ⟨n, hn⟩ := exists_stack_fields factory hids
  have hall : StackedHeaders.AllOk n headers := by
    intro g hg
    obtain ⟨id, hid, hget⟩ := mem_of_mapM hheaders g hg
    obtain ⟨d, hd, hgok⟩ := hok.getElem? hget
    rwa [(hn id hid d hd).1, (hn id hid d hd).2] at hgok
  have hafter : StackedHeaders.AllOk n s.headers :=
    StackedHeaders.exec_allOk (s := ⟨headers, st.next⟩) hall hcall
  refine ⟨?_, ?_⟩
  · -- one header after the other is written back
    have hwrite : ∀ l : List (ℕ × DataHeader), (∀ p ∈ l, p.1 ∈ st.headers ∧ HeaderOk n false p.2) →
        ∀ {hs : List DataHeader},
          List.Forall₂ (fun d h => HeaderOk d.fields.length d.metadata h) factory.headers hs →
          List.Forall₂ (fun d h => HeaderOk d.fields.length d.metadata h) factory.headers
            (l.foldl (fun headers p => headers.set p.1 p.2) hs) := by
      intro l
      induction l with
      | nil => exact fun _ _ hrel => hrel
      | cons p l ih =>
        intro hl hs hrel
        obtain ⟨hid, hh⟩ := hl p List.mem_cons_self
        refine ih (fun q hq => hl q (List.mem_cons_of_mem _ hq)) ?_
        show List.Forall₂ _ factory.headers (hs.set p.1 p.2)
        cases hd : factory.headers[p.1]? with
        | none =>
          have hlen := hrel.length_eq
          have hout : hs.length ≤ p.1 := hlen ▸ List.getElem?_eq_none_iff.mp hd
          rw [List.set_eq_of_length_le hout]
          exact hrel
        | some d =>
          refine forall₂_set hrel hd ?_
          rw [(hn p.1 hid d hd).1, (hn p.1 hid d hd).2]
          exact hh
    exact hwrite _ (fun p hp => ⟨(List.of_mem_zip hp).1, hafter _ (List.of_mem_zip hp).2⟩) hok.headers
  · rw [← hok.headerStacks, List.map_set]
    obtain ⟨hlt, rfl⟩ := List.getElem?_eq_some_iff.mp hst
    have hlen : stack < (phv.headerStacks.map HeaderStack.headers).length := by simpa using hlt
    have hself := List.set_getElem_self hlen
    rw [List.getElem_map] at hself
    exact hself

theorem PhvOk.resetHeaderStacks (hok : PhvOk factory phv) : PhvOk factory phv.resetHeaderStacks where
  headers := hok.headers
  headerStacks := by
    rw [← hok.headerStacks, DataPHV.resetHeaderStacks, List.map_map]
    rfl

theorem PhvOk.resetPHV (hok : PhvOk factory phv) : PhvOk factory phv.resetPHV :=
  hok.mapHeaders fun _ _ _ _ h => h.markInvalid

theorem PhvOk.resetMetadata (hok : PhvOk factory phv) : PhvOk factory phv.resetMetadata :=
  hok.mapHeaders fun h _ n metadata hh => by
    split
    · next hmeta => exact hh.reset (Or.inl hmeta)
    · exact hh

/-- **An operation on one PHV** that is sound. -/
theorem exec_ok {op : HeaderOp} (hok : PhvOk factory phv) (hop : op.Sound phv)
    (h : factory.exec phv op = some phv') : PhvOk factory phv' := by
  cases op with
  | extract header vlExpr data => exact hok.callHeader (fun _ _ _ _ _ hh hrun => hh.extract hrun) h
  | markValid header =>
    exact hok.callHeader (fun _ _ _ _ _ hh hrun => Option.some.inj hrun ▸ hh.markValid) h
  | markInvalid header =>
    exact hok.callHeader (fun _ _ _ _ _ hh hrun => Option.some.inj hrun ▸ hh.markInvalid) h
  | resetHeader header =>
    refine hok.callHeader (fun g g' d hg _ hh hrun => ?_) h
    obtain rfl := Option.some.inj hrun
    exact hh.reset (hop g hg)
  | addHeader header =>
    refine hok.callHeader (fun g g' d hg _ hh hrun => ?_) h
    obtain rfl := Option.some.inj hrun
    split
    · exact hh
    · next hno =>
      rw [DataHeader.isValid, Bool.or_eq_true, not_or, Bool.not_eq_true, Bool.not_eq_true] at hno
      exact (hh.reset (Or.inr hno.2)).markValid
  | removeHeader header =>
    refine hok.callHeader (fun g g' d hg _ hh hrun => ?_) h
    obtain rfl := Option.some.inj hrun
    split
    · exact hh.markInvalid
    · exact hh
  | copyHeader dst src =>
    obtain ⟨g, hg, h⟩ := Option.bind_eq_some_iff.mp h
    obtain ⟨e, he, hgok⟩ := hok.getElem? hg
    refine hok.callHeader (fun a a' d ha hd hh hrun => ?_) h
    dsimp only at hrun
    split at hrun
    · exact Option.some.inj hrun ▸ hh.markInvalid
    · next hvalid =>
      split at hrun
      · cases hrun
      · next htype =>
        obtain rfl := Option.some.inj hrun
        rw [not_not, typeId, typeId, hd, he] at htype
        have hfields := factory.same_fields d (List.mem_of_getElem? hd) e (List.mem_of_getElem? he)
          (Option.some.inj htype)
        rw [← hfields] at hgok
        refine hh.markValid.setFields hgok fun hpacket => ?_
        have hsrc : g.metadata = false := by
          rcases hop a g ha hg with hmeta | hsrc
          · rw [hh.1, hpacket] at hmeta
            cases hmeta
          · exact hsrc
        rw [DataHeader.isValid, hsrc] at hvalid
        refine ⟨?_, hgok.1.symm.trans hsrc⟩
        show g.valid = true
        simpa using hvalid
  | setField header field value =>
    refine hok.callHeader (fun g g' d hg _ hh hrun => ?_) h
    obtain rfl := Option.some.inj hrun
    exact hh.setField (hop g hg) value
  | stack stack call => exact hok.callStack h
  | reset => exact Option.some.inj h ▸ hok.resetPHV
  | resetHeaderStacks => exact Option.some.inj h ▸ hok.resetHeaderStacks
  | resetMetadata => exact Option.some.inj h ▸ hok.resetMetadata
  | resetHeaders =>
    obtain rfl := Option.some.inj h
    exact hok.mapHeaders fun g hg n metadata hh => hh.reset (hop g hg)

/-- `copy_headers` from another PHV of the factory. -/
theorem PhvOk.copyHeaders (hok : PhvOk factory phv) (hsrc : PhvOk factory src)
    (hstale : ∀ (i : ℕ) (h g : DataHeader), phv.headers[i]? = some h → src.headers[i]? = some g →
      h.metadata = true ∨ g.valid = true ∨ h.valid = false) :
    PhvOk factory (phv.copyHeaders src) := by
  refine ⟨?_, hok.headerStacks⟩
  have hrel := List.forall₂_iff_get.mp hok.headers
  have hsrcrel := List.forall₂_iff_get.mp hsrc.headers
  rw [DataPHV.copyHeaders, List.forall₂_iff_get]
  refine ⟨by rw [List.length_zipWith, ← hrel.1, ← hsrcrel.1, min_self], fun i hi hi' => ?_⟩
  have hp : i < phv.headers.length := by rw [← hrel.1]; exact hi
  have hs : i < src.headers.length := by rw [← hsrcrel.1]; exact hi
  simp only [List.get_eq_getElem, List.getElem_zipWith]
  exact (hrel.2 i hi hp).copyHeader (hsrcrel.2 i hi hs)
    (hstale i _ _ (List.getElem?_eq_getElem hp) (List.getElem?_eq_getElem hs))

/-! ## The pool -/

/-- All PHVs are those of the factory, with views that agree; in the pool no header is valid. -/
structure SourceOk (factory : HeaderFactory) (s : PhvSource) : Prop where
  pool : ∀ phv ∈ s.pool, PhvOk factory phv ∧ ∀ h ∈ phv.headers, h.valid = false
  inUse : ∀ phv ∈ s.inUse, PhvOk factory phv

variable {s s' : PhvSource}

theorem SourceOk.get (hok : SourceOk factory s) :
    PhvOk factory (factory.get s).1 ∧ (∀ h ∈ (factory.get s).1.headers, h.valid = false) ∧
      ∀ phv ∈ (factory.get s).2, PhvOk factory phv ∧ ∀ h ∈ phv.headers, h.valid = false := by
  unfold HeaderFactory.get
  cases hlast : s.pool.getLast? with
  | none =>
    refine ⟨phvOk_create factory, fun h hh => ?_, fun phv hphv => absurd hphv List.not_mem_nil⟩
    obtain ⟨d, -, rfl⟩ := List.mem_map.mp hh
    rfl
  | some phv =>
    obtain ⟨hphv, hinvalid⟩ := hok.pool phv (List.mem_of_getLast? hlast)
    exact ⟨hphv, hinvalid, fun p hp => hok.pool p (List.dropLast_subset _ hp)⟩

theorem SourceOk.inUse_append (hok : SourceOk factory s) {pool : List DataPHV} {phv : DataPHV}
    (hpool : ∀ phv ∈ pool, PhvOk factory phv ∧ ∀ h ∈ phv.headers, h.valid = false)
    (hphv : PhvOk factory phv) : SourceOk factory ⟨pool, s.inUse ++ [phv]⟩ where
  pool := hpool
  inUse p hp := by
    rcases List.mem_append.mp hp with hp | hp
    · exact hok.inUse p hp
    · rw [List.mem_singleton.mp hp]
      exact hphv

theorem SourceOk.inUse_set (hok : SourceOk factory s) {p : ℕ} {phv : DataPHV}
    (hphv : PhvOk factory phv) : SourceOk factory { s with inUse := s.inUse.set p phv } where
  pool := hok.pool
  inUse q hq := by
    rcases List.mem_or_eq_of_mem_set hq with hq | rfl
    · exact hok.inUse q hq
    · exact hphv

/-- A clone gets a PHV in which no header is valid. -/
theorem SourceOk.clone (hok : SourceOk factory s) (hsrc : PhvOk factory src) :
    PhvOk factory ((factory.get s).1.copyHeaders src) := by
  obtain ⟨hphv, hinvalid, -⟩ := hok.get
  exact hphv.copyHeaders hsrc fun i h g hh _ => Or.inr (Or.inr (hinvalid h (List.mem_of_getElem? hh)))

/-- **One step** of the packets. -/
theorem step_ok {op : PhvOp} (hok : SourceOk factory s) (hop : op.Sound s)
    (h : factory.step s op = some s') : SourceOk factory s' := by
  cases op with
  | get =>
    obtain rfl := Option.some.inj h
    exact hok.inUse_append hok.get.2.2 hok.get.1
  | release p =>
    obtain ⟨phv, hphv, h⟩ := Option.bind_eq_some_iff.mp h
    obtain rfl := Option.some.inj h
    have hphv := hok.inUse phv (List.mem_of_getElem? hphv)
    refine ⟨fun q hq => ?_, fun q hq => hok.inUse q (List.mem_of_mem_eraseIdx hq)⟩
    rcases List.mem_append.mp hq with hq | hq
    · exact hok.pool q hq
    · rw [List.mem_singleton.mp hq]
      refine ⟨hphv.resetPHV.resetHeaderStacks, fun h hh => ?_⟩
      obtain ⟨g, -, rfl⟩ := List.mem_map.mp hh
      rfl
  | cloneWithPHV p =>
    obtain ⟨src, hsrc, h⟩ := Option.bind_eq_some_iff.mp h
    obtain rfl := Option.some.inj h
    exact hok.inUse_append hok.get.2.2 (hok.clone (hok.inUse src (List.mem_of_getElem? hsrc)))
  | cloneWithPHVResetMetadata p =>
    obtain ⟨src, hsrc, h⟩ := Option.bind_eq_some_iff.mp h
    obtain rfl := Option.some.inj h
    exact hok.inUse_append hok.get.2.2
      (hok.clone (hok.inUse src (List.mem_of_getElem? hsrc))).resetMetadata
  | copyHeaders dst src =>
    obtain ⟨phv, hphv, h⟩ := Option.bind_eq_some_iff.mp h
    obtain ⟨other, hother, h⟩ := Option.bind_eq_some_iff.mp h
    obtain rfl := Option.some.inj h
    exact hok.inUse_set ((hok.inUse phv (List.mem_of_getElem? hphv)).copyHeaders
      (hok.inUse other (List.mem_of_getElem? hother)) (hop phv other hphv hother))
  | on p op =>
    obtain ⟨phv, hphv, h⟩ := Option.bind_eq_some_iff.mp h
    obtain ⟨phv', hphv', h⟩ := Option.bind_eq_some_iff.mp h
    obtain rfl := Option.some.inj h
    exact hok.inUse_set (exec_ok (hok.inUse phv (List.mem_of_getElem? hphv)) (hop phv hphv) hphv')

/-- **Two views of validity.**  In every state that a run of sound operations reaches, the flag and
the field `$valid$` of every packet header, of the PHVs that packets have and of those of the pool, say
the same. -/
theorem views_agree (factory : HeaderFactory) {ops : List PhvOp}
    (hC : RunMeets factory.step (fun s op => op.Sound s) ⟨[], []⟩ ops)
    (hrun : runFrom factory.step ⟨[], []⟩ ops = some s) :
    ∀ phv ∈ s.pool ++ s.inUse, ∀ h ∈ phv.headers, h.ViewsAgree := by
  have hok : SourceOk factory s := runFrom_invariant_of_meets
    (fun _ _ _ hI hop hstep => step_ok hI hop hstep) ⟨by simp, by simp⟩ hC hrun
  intro phv hphv h hh
  have hphv : PhvOk factory phv := by
    rcases List.mem_append.mp hphv with hphv | hphv
    · exact (hok.pool phv hphv).1
    · exact hok.inUse phv hphv
  obtain ⟨i, hi⟩ := List.mem_iff_getElem?.mp hh
  obtain ⟨d, -, hok⟩ := hphv.getElem? hi
  exact hok.viewsAgree

/-- One header of one byte, in a stack of its own. -/
def byteFactory : HeaderFactory where
  headers := [⟨0, [⟨8, false⟩], none, {0, 1}, false⟩]
  headerStacks := [[0]]
  same_fields := by simp
  stack_type ids hids := by
    refine ⟨0, fun id hid d hd => ?_⟩
    obtain rfl : d = _ := List.mem_singleton.mp (List.mem_of_getElem? hd)
    exact ⟨rfl, rfl⟩

/-- A packet makes its header valid, is cloned, and goes; its PHV goes to a third packet. -/
theorem views_agree_recycled : ∃ s,
    runFrom byteFactory.step ⟨[], []⟩
      [.get, .on 0 (.markValid 0), .cloneWithPHV 0, .release 0, .get] = some s ∧
    ∀ phv ∈ s.pool ++ s.inUse, ∀ h ∈ phv.headers, h.ViewsAgree := by
  have hsound : RunMeets byteFactory.step (fun s op => PhvOp.Sound s op) ⟨[], []⟩
      [.get, .on 0 (.markValid 0), .cloneWithPHV 0, .release 0, .get] :=
    ⟨trivial, fun _ _ => ⟨fun _ _ => trivial, fun _ _ => ⟨trivial, fun _ _ =>
      ⟨trivial, fun _ _ => ⟨trivial, fun _ _ => trivial⟩⟩⟩⟩⟩
  exact ⟨_, rfl, views_agree byteFactory hsound rfl⟩

/-- `reset_headers` leaves a header valid by its flag and not by its field. -/
theorem views_differ_reset : ∃ s phv h,
    runFrom byteFactory.step ⟨[], []⟩ [.get, .on 0 (.markValid 0), .on 0 .resetHeaders] = some s ∧
    phv ∈ s.inUse ∧ h ∈ phv.headers ∧ h.valid = true ∧ ¬ h.ViewsAgree := by
  refine ⟨_, _, _, rfl, List.mem_singleton_self _, List.mem_singleton_self _, rfl, fun hagree => ?_⟩
  obtain ⟨f, hf, -, hvalue⟩ := hagree rfl
  obtain rfl := Option.some.inj hf
  exact absurd hvalue (by decide)

end HeaderFactory

end Bm
