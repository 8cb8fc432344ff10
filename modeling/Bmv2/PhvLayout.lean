/-
# The fields that a PHV has

All PHVs of a configuration have the same headers with the same fields, whatever is written to them.
A field that the layout has can be read and set, and the other fields keep their values.
-/
import Bmv2.IngressEgress

namespace Bm

/-- The layout has this field. -/
def InLayout (layout : List ℕ) (f : ℕ × ℕ) : Prop := ∃ n, layout[f.1]? = some n ∧ f.2 < n

namespace DataPHV

/-- The number of fields of each header. -/
def layout (phv : DataPHV) : List ℕ := phv.headers.map fun h => h.fields.length

variable {phv phv' src : DataPHV} {f : ℕ × ℕ}

theorem exists_getField (phv : DataPHV) (hf : InLayout phv.layout f) : ∃ g, phv.getField f = .ok g := by
  obtain ⟨n, hn, hlt⟩ := hf
  rw [layout, List.getElem?_map, Option.map_eq_some_iff] at hn
  obtain ⟨h, hh, rfl⟩ := hn
  exact ⟨h.fields[f.2], getField_eq_ok.mpr ⟨h, hh, List.getElem?_eq_getElem hlt⟩⟩

theorem exists_valueAt (phv : DataPHV) (hf : InLayout phv.layout f) : ∃ value, phv.valueAt f = some value := by
  obtain ⟨g, hg⟩ := exists_getField phv hf
  refine ⟨g.value, ?_⟩
  rw [valueAt, hg]
  rfl

theorem layout_setHeader {i : ℕ} {h h' : DataHeader} (hget : phv.headers[i]? = some h)
    (hlength : h'.fields.length = h.fields.length) : (phv.setHeader i h').layout = phv.layout := by
  obtain ⟨hlt, rfl⟩ := List.getElem?_eq_some_iff.mp hget
  rw [layout, setHeader, List.map_set, hlength]
  have hlt' : i < (phv.headers.map fun h => h.fields.length).length := by simpa using hlt
  have hself := List.set_getElem_self hlt'
  rw [List.getElem_map] at hself
  exact hself

/-- A field is written. -/
theorem exists_setValue (phv : DataPHV) (hf : InLayout phv.layout f) (value : ℤ) :
    ∃ phv', phv.setValue f value = .ok phv' ∧ phv'.layout = phv.layout ∧
      ∀ f' ≠ f, phv'.getField f' = phv.getField f' := by
  obtain ⟨g, hg⟩ := exists_getField phv hf
  obtain ⟨h, hh, hgf⟩ := getField_eq_ok.mp hg
  refine ⟨phv.setHeader f.1 { h with fields := h.fields.set f.2 (g.set value) }, ?_, ?_, ?_⟩
  · rw [setValue, hg]
    show phv.setField f (g.set value) = _
    rw [setField, getHeader, hh]
    rfl
  · exact layout_setHeader hh List.length_set
  · intro f' hne
    rw [getField, getField, getHeader, getHeader, setHeader]
    by_cases hheader : f'.1 = f.1
    · have hother : f.2 ≠ f'.2 := fun heq => hne (Prod.ext hheader heq.symm)
      rw [hheader, List.getElem?_set_self (List.getElem?_eq_some_iff.mp hh).1, hh]
      show orFault ParseFault.id (h.fields.set f.2 (g.set value))[f'.2]? = _
      rw [List.getElem?_set_ne hother]
      rfl
    · rw [List.getElem?_set_ne (Ne.symm hheader)]

theorem exists_setAt (phv : DataPHV) (hf : InLayout phv.layout f) (value : ℤ) :
    ∃ phv', phv.setAt f value = some phv' ∧ phv'.layout = phv.layout ∧
      ∀ f' ≠ f, phv'.valueAt f' = phv.valueAt f' := by
  obtain ⟨phv', hset, hlayout, hother⟩ := exists_setValue phv hf value
  refine ⟨phv', ?_, hlayout, fun f' hne => ?_⟩
  · rw [setAt, hset]
    rfl
  · rw [valueAt, valueAt, hother f' hne]

theorem layout_resetMetadata (phv : DataPHV) : phv.resetMetadata.layout = phv.layout := by
  rw [layout, layout, resetMetadata, List.map_map]
  refine List.map_congr_left fun h _ => ?_
  show (if h.metadata then h.reset else h).fields.length = h.fields.length
  split
  · exact List.length_map _
  · rfl

theorem exists_copyFieldList (phv src : DataPHV) {fieldList : List (ℕ × ℕ)}
    (hlist : ∀ f ∈ fieldList, InLayout phv.layout f) (hsrc : src.layout = phv.layout) :
    ∃ phv', phv.copyFieldList src fieldList = .ok phv' ∧ phv'.layout = phv.layout := by
  induction fieldList generalizing phv with
  | nil => exact ⟨phv, rfl, rfl⟩
  | cons f fieldList ih =>
    obtain ⟨g, hg⟩ := exists_getField src (hsrc ▸ hlist f (by simp))
    obtain ⟨phv₁, hset, hlayout, -⟩ := exists_setValue phv (hlist f (by simp)) g.value
    obtain ⟨phv', hcopy, hlayout'⟩ := ih phv₁
      (fun f' hf' => hlayout ▸ hlist f' (by simp [hf'])) (hsrc.trans hlayout.symm)
    refine ⟨phv', ?_, hlayout'.trans hlayout⟩
    rw [copyFieldList, List.foldlM_cons, hg]
    show phv.setValue f g.value >>= _ = _
    rw [hset]
    exact hcopy

theorem layout_copyHeaders (h : src.layout = phv.layout) :
    (phv.copyHeaders src).layout = phv.layout := by
  apply List.ext_getElem?
  intro i
  have hi : (src.layout)[i]? = (phv.layout)[i]? := by rw [h]
  simp only [layout, List.getElem?_map, copyHeaders] at hi ⊢
  rw [List.getElem?_zipWith]
  cases hp : phv.headers[i]? with
  | none => rfl
  | some p =>
    rw [hp] at hi
    obtain ⟨g, hg, hlength⟩ := Option.map_eq_some_iff.mp hi
    rw [hg]
    simp only [Option.map_some, Option.some.injEq]
    split
    · simp [DataHeader.copyFields, hlength]
    · rfl

end DataPHV

end Bm
