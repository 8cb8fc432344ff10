/-
# Arguments of primitives

When an action does what the configuration says: exactly when, in no call, the vector of results moves after an
argument has been put there (`ActionFn.Steady`).  The order of evaluation decides:

* from right to left, it never moves too late;
* in other orders it can, when an action has more expressions than there is room, but never again after the
  action has been executed by the thread.
-/
import Bmv2.ActionLoading
import Bmv2.ExprEval
import Bmv2.Primitives

namespace Bm

/-! ## Room -/

namespace Room

variable {g : VectorGrowth} {r : Room}

/-- There is room for what is there. -/
def Fits (r : Room) : Prop := r.size ≤ r.capacity

/-- What happens when `n` elements are added. -/
theorem iterate_emplaceBack (hr : r.Fits) (n : ℕ) :
    let r' := (emplaceBack g)^[n] r
    r'.Fits ∧ r'.size = r.size + n ∧ r.capacity ≤ r'.capacity ∧ r.buffer ≤ r'.buffer ∧
      (r.size + n ≤ r.capacity → r'.buffer = r.buffer ∧ r'.capacity = r.capacity) ∧
      (r.capacity < r.size + n → r.buffer < r'.buffer) := by
  induction n with
  | zero =>
    refine ⟨hr, rfl, le_rfl, le_rfl, fun _ => ⟨rfl, rfl⟩, fun h => ?_⟩
    rw [Fits] at hr
    omega
  | succ n ih =>
    rw [Function.iterate_succ_apply']
    generalize (emplaceBack g)^[n] r = r' at ih
    obtain ⟨hfits, hsize, hcapacity, hbuffer, hstays, hmoves⟩ := ih
    have hgrown := g.lt_grown r'.capacity
    rw [Fits] at hr hfits
    dsimp only [emplaceBack]
    by_cases hlt : r'.size < r'.capacity
    · rw [if_pos hlt]
      refine ⟨hlt, congrArg (· + 1) hsize, hcapacity, hbuffer, fun h => hstays (by omega), fun h => ?_⟩
      by_cases hle : r.size + n ≤ r.capacity
      · have := (hstays hle).2
        dsimp only at *
        omega
      · exact hmoves (by omega)
    · rw [if_neg hlt]
      refine ⟨?_, congrArg (· + 1) hsize, ?_, ?_, fun h => ?_, fun _ => ?_⟩
      · show r'.size + 1 ≤ g.grown r'.capacity
        omega
      · show r.capacity ≤ g.grown r'.capacity
        omega
      · show r.buffer ≤ r'.buffer + 1
        omega
      · have := (hstays (by omega)).2
        omega
      · show r.buffer < r'.buffer + 1
        omega

theorem reach_spec (hr : r.Fits) (offset : ℕ) :
    (r.reach g offset).Fits ∧ r.size ≤ (r.reach g offset).size ∧ offset < (r.reach g offset).size ∧
      r.capacity ≤ (r.reach g offset).capacity ∧ r.buffer ≤ (r.reach g offset).buffer ∧
      (offset < r.capacity → (r.reach g offset).buffer = r.buffer ∧ (r.reach g offset).capacity = r.capacity) ∧
      (r.capacity ≤ offset → r.buffer < (r.reach g offset).buffer) := by
  obtain ⟨hfits, hsize, hcapacity, hbuffer, hstays, hmoves⟩ := iterate_emplaceBack (g := g) hr (offset + 1 - r.size)
  rw [Fits] at hr
  refine ⟨hfits, ?_, ?_, hcapacity, hbuffer, fun h => hstays (by omega), fun h => hmoves (by omega)⟩ <;>
    rw [reach, hsize] <;> omega

/-- The results go to these places, one after another, and the vector does not move once there is one. -/
def Steady (g : VectorGrowth) (r : Room) : List ℕ → Prop
  | [] => True
  | o :: os => ∀ o' ∈ os, o' < (r.reach g o).capacity

/-- The room afterwards. -/
def reachAll (g : VectorGrowth) (r : Room) (os : List ℕ) : Room := os.foldl (reach g) r

theorem reachAll_append (os os' : List ℕ) : r.reachAll g (os ++ os') = (r.reachAll g os).reachAll g os' :=
  List.foldl_append

theorem reachAll_spec (hr : r.Fits) (os : List ℕ) : (r.reachAll g os).Fits ∧ r.capacity ≤ (r.reachAll g os).capacity ∧
    r.buffer ≤ (r.reachAll g os).buffer ∧ (∀ o ∈ os, o < (r.reachAll g os).capacity) ∧
      ((∀ o ∈ os, o < r.capacity) → (r.reachAll g os).buffer = r.buffer ∧ (r.reachAll g os).capacity = r.capacity) := by
  induction os generalizing r with
  | nil => exact ⟨hr, le_rfl, le_rfl, fun o ho => absurd ho List.not_mem_nil, fun _ => ⟨rfl, rfl⟩⟩
  | cons o os ih =>
    obtain ⟨hfits, -, hlt, hcapacity, hbuffer, hstays, -⟩ := reach_spec (g := g) hr o
    obtain ⟨hfits', hcapacity', hbuffer', hlt', hstays'⟩ := ih hfits
    rw [Fits] at hfits
    refine ⟨hfits', hcapacity.trans hcapacity', hbuffer.trans hbuffer', fun o' ho' => ?_, fun h => ?_⟩
    · rcases List.mem_cons.mp ho' with rfl | ho'
      · exact lt_of_lt_of_le (lt_of_lt_of_le hlt hfits) hcapacity'
      · exact hlt' o' ho'
    · obtain ⟨hb, hc⟩ := hstays (h o List.mem_cons_self)
      obtain ⟨hb', hc'⟩ := hstays' fun o' ho' => hc ▸ h o' (List.mem_cons_of_mem o ho')
      exact ⟨hb'.trans hb, hc'.trans hc⟩

/-- **One more result**: the vector has been steady and does not move for it, or it is the first one. -/
theorem steady_concat (hr : r.Fits) (os : List ℕ) (o : ℕ) :
    r.Steady g (os ++ [o]) ↔ r.Steady g os ∧ (os ≠ [] → o < (r.reachAll g os).capacity) := by
  cases os with
  | nil => simp [Steady]
  | cons o₁ os =>
    have hsame : r.Steady g (o₁ :: os) → (r.reachAll g (o₁ :: os)).capacity = (r.reach g o₁).capacity := fun h =>
      ((reachAll_spec (reach_spec hr o₁).1 os).2.2.2.2 h).2
    simp only [List.cons_append, Steady, List.mem_append, List.mem_singleton, ne_eq, reduceCtorEq, not_false_iff,
      true_implies]
    constructor
    · intro h
      have hsteady : r.Steady g (o₁ :: os) := fun o' ho' => h o' (.inl ho')
      exact ⟨hsteady, hsame hsteady ▸ h o (.inr rfl)⟩
    · rintro ⟨hsteady, hlt⟩ o' (ho' | rfl)
      · exact hsteady o' ho'
      · exact hsame hsteady ▸ hlt

/-- Places that come down never make the vector move twice. -/
theorem steady_of_decreasing (hr : r.Fits) {os : List ℕ} (hos : os.Pairwise (· > ·)) : r.Steady g os := by
  cases os with
  | nil => trivial
  | cons o os =>
    intro o' ho'
    have hlt := (List.pairwise_cons.mp hos).1 o' ho'
    obtain ⟨hfits, -, hsize, -⟩ := reach_spec (g := g) hr o
    rw [Fits] at hfits
    omega

/-- There is room for everything from the start. -/
theorem steady_of_room (hr : r.Fits) {os : List ℕ} (hos : ∀ o ∈ os, o < r.capacity) : r.Steady g os := by
  cases os with
  | nil => trivial
  | cons o os =>
    intro o' ho'
    exact lt_of_lt_of_le (hos o' (List.mem_cons_of_mem o ho')) (reach_spec hr o).2.2.2.1

end Room

/-! ## One argument -/

section To

variable {P : Type} {cast : BignumCast} {phv : P → DataPHV} {g : VectorGrowth} {registers : Registers}
  {state : ActionEngineState P}

/-- The value of an expression, whatever earlier evaluations have left. -/
theorem Expression.eval_eq (cast : BignumCast) (env : ExprEnv) {e : Expression}
    (halloc : ∀ op ∈ e.ops, op.Allocated e.dataRegistersCnt) (temps : List ℤ) : ∃ temps', e.eval cast env temps =
      (e.evalArith cast env []).toOption.map fun value => (value, temps') := by
  have hagree : env.AgreeOn e.grabRegisterAccesses env := ⟨rfl, rfl, fun _ _ => rfl⟩
  rw [eval, Expression.evalArith_congr halloc hagree [] temps]
  cases e.evalArith cast env [] with
  | error fault => exact ⟨[], rfl⟩
  | ok value => exact ⟨_, rfl⟩

theorem ActionParam.place_constValues {param : ActionParam} (h : ∀ offset, param ≠ .const offset)
    (constValues : List ℤ) (ty : ArgType) :
    param.place phv registers { state with constValues } ty = param.place phv registers state ty := by
  cases param with
  | const offset => exact absurd rfl (h offset)
  | _ => cases ty <;> rfl

variable (cast phv g registers state) in
/-- **What `to` returns** for a parameter that does for one of the configuration: the place or the value that it
denotes, or a reference to the value. -/
theorem ActionParam.Implements.to_spec {param : ActionParam} {c : ConfigParam}
    (himpl : param.Implements state.constValues c) (temps : DataTemps) (ty : ArgType) :
    match c.denotes cast phv registers state.packet state.actionData ty with
    | none => param.to cast phv g registers state temps ty = none
    | some arg => ∃ ref temps', param.to cast phv g registers state temps ty = some (ref, temps') ∧
        match param.offset? with
        | none => ref = .fixed arg ∧ temps'.room = temps.room ∧ ∀ o ≠ 0, temps'.values o = temps.values o
        | some offset => ref = .temp temps'.room.buffer offset ∧ temps'.room = temps.room.reach g offset ∧
            arg = .value ⟨temps'.values offset, true⟩ ∧
            ∀ o ≠ offset, o < temps.room.size → temps'.values o = temps.values o := by
  -- constants play no part in evaluations
  have henv : ActionEngineState.env phv registers ⟨state.packet, state.actionData, []⟩ = state.env phv registers := rfl
  cases himpl with
  | @const offset data h =>
    cases ty with
    | constData =>
      refine ⟨.fixed (.value ⟨data, true⟩), temps, ?_, rfl, rfl, fun _ _ => rfl⟩
      change ((state.constValues[offset]?).map _).map _ = _
      rw [h]
      rfl
    | _ => rfl
  | @expression offset e halloc =>
    cases ty with
    | constData =>
      obtain ⟨evalTemps, heval⟩ := Expression.eval_eq cast (state.env phv registers) halloc
        (temps.reach g offset).evalTemps
      rw [ConfigParam.denotes, ActionParam.to, heval, henv]
      cases (e.evalArith cast (state.env phv registers) []).toOption with
      | none => rfl
      | some value =>
        refine ⟨_, _, rfl, rfl, rfl, ?_, fun o ho hsize => ?_⟩
        · simp [DataTemps.write]
        · simp [DataTemps.write, DataTemps.reach, Function.update_of_ne ho, hsize]
    | _ => rfl
  | @registerGen array idx halloc =>
    obtain ⟨evalTemps, heval⟩ := Expression.eval_eq cast (state.env phv registers) halloc
        temps.evalTemps
    cases ty with
    | constData =>
      rw [ConfigParam.denotes, ActionParam.to, heval, henv]
      cases (idx.evalArith cast (state.env phv registers) []).toOption with
      | none => rfl
      | some value =>
        cases hindex : registerIndex cast registers array value with
        | none =>
          simp [hindex]
        | some arg =>
          simp only [Option.bind_some, hindex]
          refine ⟨.fixed arg, { temps.write 0 value with evalTemps }, ?_, rfl, rfl, fun o ho => ?_⟩
          · change (registerIndex cast registers array value).bind _ = _
            rw [hindex]
            rfl
          · exact Function.update_of_ne ho _ _
    | data =>
      rw [ConfigParam.denotes, ActionParam.to, heval, henv]
      cases (idx.evalArith cast (state.env phv registers) []).toOption with
      | none => rfl
      | some value =>
        cases hindex : registerIndex cast registers array value with
        | none =>
          simp [hindex]
        | some arg =>
          simp only [Option.bind_some, hindex]
          refine ⟨.fixed arg, { temps with evalTemps }, ?_, rfl, rfl, fun o ho => rfl⟩
          change (registerIndex cast registers array value).bind _ = _
          rw [hindex]
          rfl
    | _ => rfl
  | place hconst hexpression hgen =>
    have hto : param.to cast phv g registers state temps ty =
        (param.place phv registers state ty).map fun arg => (.fixed arg, temps) := by
      cases param with
      | const offset => exact absurd rfl (hconst offset)
      | expression offset e => exact absurd rfl (hexpression offset e)
      | registerGen array idx => exact absurd rfl (hgen array idx)
      | _ => cases ty <;> rfl
    have hoffset : param.offset? = none := by
      cases param with
      | expression offset e => exact absurd rfl (hexpression offset e)
      | _ => rfl
    rw [hto, hoffset, ← place_constValues hconst [] ty]
    have hdenotes : (ConfigParam.place param).denotes cast phv registers state.packet state.actionData ty =
        param.place phv registers { state with constValues := [] } ty := by
      cases ty <;> rfl
    rw [hdenotes]
    cases param.place phv registers { state with constValues := [] } ty with
    | none => rfl
    | some arg => exact ⟨_, _, rfl, rfl, rfl, fun _ _ => rfl⟩

end To

/-! ## The arguments of a call -/

/-- The places in `data_temps` of the parameters, in this order. -/
def offsetsIn (params : List ActionParam) (order : List ℕ) : List ℕ :=
  order.filterMap fun i => (params[i]?).bind ActionParam.offset?

section Call

variable {P : Type} {cast : BignumCast} {phv : P → DataPHV} {g : VectorGrowth} {registers : Registers}
  {fn : ActionFn P} {packet : P} {actionData : List ℤ} {primitive : Primitive P} {paramOffset : ℕ}

/-- The parameters of a call that have been loaded. -/
structure ActionFn.HasCall (fn : ActionFn P) (paramOffset : ℕ) (params : List ActionParam) (call : ConfigCall P) : Prop
    where
  stretch : ∀ i < call.primitive.getNumParams, fn.params[paramOffset + i]? = params[i]?
  implements : List.Forall₂ (ActionParam.Implements fn.constValues) params call.params
  length : params.length = call.primitive.getNumParams
  /-- No two results have the same place, and none is the first. -/
  increasing : params.Pairwise fun p p' => ∀ o ∈ p.offset?, ∀ o' ∈ p'.offset?, o < o'
  positive : ∀ p ∈ params, ∀ o ∈ p.offset?, 0 < o

/-- What the argument `i` of a call denotes. -/
def ConfigCall.denotes (call : ConfigCall P) (cast : BignumCast) (phv : P →
    DataPHV) (registers : Registers) (packet : P)
    (actionData : List ℤ) (i : ℕ) : Option Arg := do
  let ty ← call.primitive.args[i]?
  let c ← call.params[i]?
  c.denotes cast phv registers packet actionData ty

variable {params : List ActionParam} {call : ConfigCall P} {r : Room} {done : List ℕ} {args : List (Option Ref)}
  {temps : DataTemps}

/-- What has been evaluated when the arguments of `done` have been. -/
structure ArgsRead (g : VectorGrowth) (params : List ActionParam) (denoted : ℕ → Option Arg) (r : Room) (done : List ℕ)
    (args : List (Option Ref)) (temps : DataTemps) : Prop where
  inRange : ∀ i ∈ done, i < params.length
  room : temps.room = r.reachAll g (offsetsIn params done)
  reached : ∀ i ∈ done, ∀ p ∈ params[i]?, ∀ o ∈ p.offset?, o < temps.room.size
  fixed : ∀ i ∈ done, ∀ p ∈ params[i]?, p.offset? = none →
    ∃ arg, denoted i = some arg ∧ args[i]? = some (some (.fixed arg))
  temp : ∀ i ∈ done, ∀ p ∈ params[i]?, ∀ o ∈ p.offset?, ∃ b, args[i]? = some (some (.temp b o)) ∧
    denoted i = some (.value ⟨temps.values o, true⟩) ∧ b ≤ temps.room.buffer
  steady : r.Steady g (offsetsIn params done) → ∀ i ∈ done, ∀ b o, args[i]? = some (some (.temp b o)) →
    b = temps.room.buffer
  moved : ¬ r.Steady g (offsetsIn params done) → ∃ i ∈ done, ∃ b o, args[i]? = some (some (.temp b o)) ∧
    b < temps.room.buffer

theorem offsetsIn_concat (params : List ActionParam) (order : List ℕ) (i : ℕ) :
    offsetsIn params (order ++ [i]) = offsetsIn params order ++ ((params[i]?).bind ActionParam.offset?).toList := by
  rw [offsetsIn, List.filterMap_append]
  cases h : (params[i]?).bind ActionParam.offset? <;> simp [offsetsIn, h]

/-- What happens to the other arguments when one is put in. -/
theorem getElem?_set_done {ref : Option Ref} {i j : ℕ} (hnew : i ∉ done) (hj : j ∈ done) :
    (args.set i ref)[j]? = args[j]? :=
  List.getElem?_set_ne fun (h : i = j) => hnew (h.symm ▸ hj)

variable {denoted : ℕ → Option Arg} {i : ℕ} {p : ActionParam} {arg : Arg} {temps' : DataTemps}

/-- An argument that is not the result of an expression. -/
theorem ArgsRead.addFixed (h : ArgsRead g params denoted r done args temps) (hp : params[i]? = some p)
    (hoffset : p.offset? = none) (hi : i < args.length) (hnew : i ∉ done) (hdenoted : denoted i = some arg)
    (hroom : temps'.room = temps.room) (hvalues : ∀ o ≠ 0, temps'.values o = temps.values o)
    (hpositive : ∀ p ∈ params, ∀ o ∈ p.offset?, 0 < o) :
    ArgsRead g params denoted r (done ++ [i]) (args.set i (some (.fixed arg))) temps' := by
  have hoffsets : offsetsIn params (done ++ [i]) = offsetsIn params done := by
    rw [offsetsIn_concat, hp]
    simp [hoffset]
  have hself : (args.set i (some (.fixed arg)))[i]? = some (some (.fixed arg)) := List.getElem?_set_self hi
  refine ⟨?_, ?_, ?_, ?_, ?_, ?_, ?_⟩
  · intro j hj
    rcases List.mem_append.mp hj with hj | hj
    · exact h.inRange j hj
    · rw [List.mem_singleton.mp hj]
      exact (List.getElem?_eq_some_iff.mp hp).1
  · rw [hroom, hoffsets, h.room]
  · intro j hj q hq o ho
    rw [hroom]
    rcases List.mem_append.mp hj with hj | hj
    · exact h.reached j hj q hq o ho
    · rw [List.mem_singleton.mp hj, hp] at hq
      cases hq
      rw [hoffset] at ho
      cases ho
  · intro j hj q hq hnone
    rcases List.mem_append.mp hj with hj | hj
    · rw [getElem?_set_done hnew hj]
      exact h.fixed j hj q hq hnone
    · rw [List.mem_singleton.mp hj]
      exact ⟨arg, hdenoted, hself⟩
  · intro j hj q hq o ho
    rcases List.mem_append.mp hj with hj | hj
    · rw [getElem?_set_done hnew hj, hroom, hvalues o (hpositive q (List.mem_of_getElem? hq) o ho).ne']
      exact h.temp j hj q hq o ho
    · rw [List.mem_singleton.mp hj, hp] at hq
      cases hq
      rw [hoffset] at ho
      cases ho
  · intro hsteady j hj b o hb
    rw [hoffsets] at hsteady
    rw [hroom]
    rcases List.mem_append.mp hj with hj | hj
    · exact h.steady hsteady j hj b o (getElem?_set_done hnew hj ▸ hb)
    · rw [List.mem_singleton.mp hj, hself] at hb
      cases hb
  · intro hmoved
    rw [hoffsets] at hmoved
    obtain ⟨j, hj, b, o, hb, hlt⟩ := h.moved hmoved
    exact ⟨j, List.mem_append_left _ hj, b, o, (getElem?_set_done hnew hj).trans hb, hroom ▸ hlt⟩

/-- The result of an expression. -/
theorem ArgsRead.addTemp (h : ArgsRead g params denoted r done args temps) (hr : r.Fits) (hp : params[i]? = some p)
    {o : ℕ} (hoffset : p.offset? = some o) (hi : i < args.length) (hnew : i ∉ done)
    (hdenoted : denoted i = some (.value ⟨temps'.values o, true⟩)) (hroom : temps'.room = temps.room.reach g o)
    (hvalues : ∀ o' ≠ o, o' < temps.room.size → temps'.values o' = temps.values o')
    (hdistinct : ∀ j ∈ done, ∀ q ∈ params[j]?, q.offset? ≠ some o) :
    ArgsRead g params denoted r (done ++ [i]) (args.set i (some (.temp temps'.room.buffer o))) temps' := by
  have hoffsets : offsetsIn params (done ++ [i]) = offsetsIn params done ++ [o] := by
    rw [offsetsIn_concat, hp]
    simp [hoffset]
  have hself : (args.set i (some (.temp temps'.room.buffer o)))[i]? = some (some (.temp temps'.room.buffer o)) :=
    List.getElem?_set_self hi
  have hfits : temps.room.Fits := h.room ▸ (Room.reachAll_spec (g := g) hr (offsetsIn params done)).1
  obtain ⟨-, hsize, hlt, -, hbuffer, hstays, hmoves⟩ := Room.reach_spec (g := g) hfits o
  rw [← hroom] at hsize hlt hbuffer hstays hmoves
  refine ⟨?_, ?_, ?_, ?_, ?_, ?_, ?_⟩
  · intro j hj
    rcases List.mem_append.mp hj with hj | hj
    · exact h.inRange j hj
    · rw [List.mem_singleton.mp hj]
      exact (List.getElem?_eq_some_iff.mp hp).1
  · rw [hroom, hoffsets, Room.reachAll_append, ← h.room]
    rfl
  · intro j hj q hq o' ho'
    rcases List.mem_append.mp hj with hj | hj
    · exact lt_of_lt_of_le (h.reached j hj q hq o' ho') hsize
    · rw [List.mem_singleton.mp hj, hp] at hq
      cases hq
      rw [hoffset] at ho'
      cases ho'
      exact hlt
  · intro j hj q hq hnone
    rcases List.mem_append.mp hj with hj | hj
    · rw [getElem?_set_done hnew hj]
      exact h.fixed j hj q hq hnone
    · rw [List.mem_singleton.mp hj, hp] at hq
      cases hq
      rw [hoffset] at hnone
      cases hnone
  · intro j hj q hq o' ho'
    rcases List.mem_append.mp hj with hj | hj
    · obtain ⟨b, hb, hvalue, hle⟩ := h.temp j hj q hq o' ho'
      have hne : o' ≠ o := fun heq => hdistinct j hj q hq (heq ▸ ho')
      refine ⟨b, (getElem?_set_done hnew hj).trans hb, ?_, hle.trans hbuffer⟩
      rw [hvalues o' hne (h.reached j hj q hq o' ho')]
      exact hvalue
    · rw [List.mem_singleton.mp hj, hp] at hq
      cases hq
      rw [hoffset] at ho'
      cases ho'
      rw [List.mem_singleton.mp hj]
      exact ⟨_, hself, hdenoted, le_rfl⟩
  · intro hsteady j hj b o' hb
    rw [hoffsets, Room.steady_concat hr, ← h.room] at hsteady
    rcases List.mem_append.mp hj with hj | hj
    · rw [getElem?_set_done hnew hj] at hb
      -- there is a result already, so the vector has room for one more
      have hne : offsetsIn params done ≠ [] := by
        obtain ⟨q, hq⟩ : ∃ q, params[j]? = some q := ⟨_, List.getElem?_eq_getElem (h.inRange j hj)⟩
        cases hqo : q.offset? with
        | none =>
          obtain ⟨arg, -, harg⟩ := h.fixed j hj _ hq hqo
          rw [harg] at hb
          cases hb
        | some o₁ => exact List.ne_nil_of_mem (List.mem_filterMap.mpr ⟨j, hj, by rw [hq]; exact hqo⟩)
      rw [h.steady hsteady.1 j hj b o' hb]
      exact (hstays (hsteady.2 hne)).1.symm
    · rw [List.mem_singleton.mp hj, hself] at hb
      cases hb
      rfl
  · intro hmoved
    rw [hoffsets, Room.steady_concat hr, ← h.room] at hmoved
    by_cases hsteady : r.Steady g (offsetsIn params done)
    · -- the vector moves for this result, and some result is there already
      obtain ⟨hne, hle⟩ : offsetsIn params done ≠ [] ∧ temps.room.capacity ≤ o := by
        by_contra hcon
        refine hmoved ⟨hsteady, fun hne => ?_⟩
        by_contra hge
        exact hcon ⟨hne, not_lt.mp hge⟩
      obtain ⟨o₁, ho₁⟩ := List.exists_mem_of_ne_nil _ hne
      obtain ⟨j, hj, hjo⟩ := List.mem_filterMap.mp ho₁
      obtain ⟨q, hq, hqo⟩ := Option.bind_eq_some_iff.mp hjo
      obtain ⟨b, hb, -, hle'⟩ := h.temp j hj q hq o₁ hqo
      exact ⟨j, List.mem_append_left _ hj, b, o₁, (getElem?_set_done hnew hj).trans hb,
        lt_of_le_of_lt hle' (hmoves hle)⟩
    · obtain ⟨j, hj, b, o', hb, hlt'⟩ := h.moved hsteady
      exact ⟨j, List.mem_append_left _ hj, b, o', (getElem?_set_done hnew hj).trans hb, lt_of_lt_of_le hlt' hbuffer⟩

/-- **One more argument**: it is evaluated when it denotes something. -/
theorem ArgsRead.step (hcall : fn.HasCall paramOffset params call) (hr : r.Fits)
    (h : ArgsRead g params (call.denotes cast phv registers packet actionData) r done args temps)
    (hlength : args.length = call.primitive.getNumParams) {i : ℕ} (hi : i < call.primitive.getNumParams) (hnew : i ∉
      done) :
    match call.denotes cast phv registers packet actionData i with
    | none => resolveArg cast phv g registers fn ⟨packet, actionData, fn.constValues⟩ call.primitive paramOffset
        (args, temps) i = none
    | some _ => ∃ ref temps', resolveArg cast phv g registers fn ⟨packet, actionData, fn.constValues⟩ call.primitive
          paramOffset (args, temps) i = some (args.set i (some ref), temps') ∧
        ArgsRead g params (call.denotes cast phv registers packet actionData) r (done ++ [i]) (args.set i (some ref))
          temps' := by
  obtain ⟨ty, hty⟩ : ∃ ty, call.primitive.args[i]? = some ty := ⟨_, List.getElem?_eq_getElem hi⟩
  obtain ⟨p, hp⟩ : ∃ p, params[i]? = some p := ⟨_, List.getElem?_eq_getElem (hcall.length ▸ hi)⟩
  obtain ⟨c, hc⟩ : ∃ c, call.params[i]? = some c :=
    ⟨_, List.getElem?_eq_getElem (by rw [← hcall.implements.length_eq, hcall.length]; exact hi)⟩
  have himpl : p.Implements fn.constValues c := by
    obtain ⟨hpi, rfl⟩ := List.getElem?_eq_some_iff.mp hp
    obtain ⟨hci, rfl⟩ := List.getElem?_eq_some_iff.mp hc
    exact hcall.implements.get hpi hci
  have hto := himpl.to_spec cast phv g registers ⟨packet, actionData, fn.constValues⟩ temps ty
  have hdenotes : call.denotes cast phv registers packet actionData i = c.denotes cast phv registers packet actionData
    ty
      := by
    rw [ConfigCall.denotes, hty, hc]
    rfl
  have hresolve : resolveArg cast phv g registers fn ⟨packet, actionData, fn.constValues⟩ call.primitive paramOffset
      (args, temps) i = (p.to cast phv g registers ⟨packet, actionData, fn.constValues⟩ temps ty).map fun s =>
        (args.set i (some s.1), s.2) := by
    rw [resolveArg, hcall.stretch i hi, hp, hty]
    simp only [Option.bind_eq_bind, Option.bind_some]
    cases p.to cast phv g registers ⟨packet, actionData, fn.constValues⟩ temps ty <;> rfl
  rw [hresolve]
  have hi' : i < args.length := hlength ▸ hi
  cases hc' : c.denotes cast phv registers packet actionData ty with
  | none =>
    rw [hc'] at hto
    rw [hdenotes, hc', hto]
    rfl
  | some arg =>
    rw [hc'] at hto
    obtain ⟨ref, temps', hto, hspec⟩ := hto
    rw [hdenotes, hc']
    refine ⟨ref, temps', by rw [hto]; rfl, ?_⟩
    cases hoffset : p.offset? with
    | none =>
      rw [hoffset] at hspec
      obtain ⟨rfl, hroom, hvalues⟩ := hspec
      exact h.addFixed hp hoffset hi' hnew (hdenotes.trans hc') hroom hvalues hcall.positive
    | some o =>
      rw [hoffset] at hspec
      obtain ⟨rfl, hroom, rfl, hvalues⟩ := hspec
      refine h.addTemp hr hp hoffset hi' hnew (hdenotes.trans hc') hroom hvalues fun j hj q hq ho => ?_
      obtain ⟨hpi, rfl⟩ := List.getElem?_eq_some_iff.mp hp
      obtain ⟨hqj, rfl⟩ := List.getElem?_eq_some_iff.mp hq
      rcases lt_trichotomy i j with hij | rfl | hij
      · exact absurd (List.pairwise_iff_getElem.mp hcall.increasing i j hpi hqj hij o hoffset o ho) (lt_irrefl o)
      · exact hnew hj
      · exact absurd (List.pairwise_iff_getElem.mp hcall.increasing j i hqj hpi hij o ho o hoffset) (lt_irrefl o)

/-- **All arguments** that are left, in their order. -/
theorem ArgsRead.foldlM (hcall : fn.HasCall paramOffset params call) (hr : r.Fits) {todo : List ℕ}
    (h : ArgsRead g params (call.denotes cast phv registers packet actionData) r done args temps)
    (hlength : args.length = call.primitive.getNumParams) (htodo : ∀ i ∈ todo, i < call.primitive.getNumParams)
    (hnodup : (done ++ todo).Nodup) :
    ((∀ i ∈ todo, (call.denotes cast phv registers packet actionData i).isSome) → ∃ args' temps',
      todo.foldlM (resolveArg cast phv g registers fn ⟨packet, actionData, fn.constValues⟩ call.primitive paramOffset)
        (args, temps) = some (args', temps') ∧ args'.length = call.primitive.getNumParams ∧
      ArgsRead g params (call.denotes cast phv registers packet actionData) r (done ++ todo) args' temps') ∧
    ((∃ i ∈ todo, call.denotes cast phv registers packet actionData i = none) →
      todo.foldlM (resolveArg cast phv g registers fn ⟨packet, actionData, fn.constValues⟩ call.primitive paramOffset)
        (args, temps) = none) := by
  induction todo generalizing done args temps with
  | nil => exact ⟨fun _ => ⟨args, temps, rfl, hlength, by rwa [List.append_nil]⟩, fun ⟨i, hi, _⟩ =>
    absurd hi List.not_mem_nil⟩
  | cons i todo ih =>
    have hnew : i ∉ done := fun hi => by
      rw [List.nodup_append] at hnodup
      exact hnodup.2.2 i hi i List.mem_cons_self rfl
    have hstep := h.step hcall hr hlength (htodo i List.mem_cons_self) hnew
    rw [List.foldlM_cons]
    cases hdenoted : call.denotes cast phv registers packet actionData i with
    | none =>
      rw [hdenoted] at hstep
      refine ⟨fun hall => ?_, fun _ => by rw [hstep]; rfl⟩
      have := hall i List.mem_cons_self
      rw [hdenoted] at this
      cases this
    | some arg =>
      rw [hdenoted] at hstep
      obtain ⟨ref, temps', hresolve, h'⟩ := hstep
      have hrest := ih h' (by rw [List.length_set, hlength]) (fun j hj => htodo j (List.mem_cons_of_mem i hj))
        (by rwa [List.append_assoc])
      rw [hresolve]
      refine ⟨fun hall => ?_, fun ⟨j, hj, hnone⟩ => ?_⟩
      · obtain ⟨args', temps'', hfold, hlength', hread⟩ := hrest.1 fun j hj => hall j (List.mem_cons_of_mem i hj)
        exact ⟨args', temps'', hfold, hlength', by rwa [List.append_assoc] at hread⟩
      · rcases List.mem_cons.mp hj with rfl | hj
        · rw [hdenoted] at hnone
          cases hnone
        · exact hrest.2 ⟨j, hj, hnone⟩

/-- What the configuration gives to the primitive. -/
theorem ConfigCall.mapM_denotes (hlength : call.params.length = call.primitive.getNumParams) :
    ((call.primitive.args.zip call.params).mapM fun p => p.2.denotes cast phv registers packet actionData p.1) =
      (List.range call.primitive.getNumParams).mapM (call.denotes cast phv registers packet actionData) := by
  rw [mapM_eq_mapM_range, List.length_zip, hlength, Primitive.getNumParams, min_self]
  refine mapM_congr_of_mem fun i _ => ?_
  rw [ConfigCall.denotes, List.zip, List.getElem?_zipWith]
  cases call.primitive.args[i]? with
  | none => rfl
  | some ty => cases call.params[i]? <;> rfl

/-- **The arguments that the primitive finds**: those that are denoted, if the vector has been steady. -/
theorem ArgsRead.loadArgs {order : List ℕ}
    (h : ArgsRead g params (call.denotes cast phv registers packet actionData) r order args temps)
    (hlength : args.length = call.primitive.getNumParams) (horder : order.Perm (List.range
      call.primitive.getNumParams)) :
    (r.Steady g (offsetsIn params order) → loadArgs args temps =
      (List.range call.primitive.getNumParams).mapM (call.denotes cast phv registers packet actionData)) ∧
    (¬ r.Steady g (offsetsIn params order) → loadArgs args temps = none) := by
  rw [Bm.loadArgs, mapM_eq_mapM_range, hlength]
  constructor
  · intro hsteady
    refine mapM_congr_of_mem fun i hi => ?_
    have hdone := horder.mem_iff.mpr hi
    obtain ⟨p, hp⟩ : ∃ p, params[i]? = some p := ⟨_, List.getElem?_eq_getElem (h.inRange i hdone)⟩
    cases hoffset : p.offset? with
    | none =>
      obtain ⟨arg, hdenoted, harg⟩ := h.fixed i hdone p hp hoffset
      rw [harg, hdenoted]
      rfl
    | some o =>
      obtain ⟨b, hb, hdenoted, -⟩ := h.temp i hdone p hp o hoffset
      rw [hb, hdenoted]
      exact if_pos (h.steady hsteady i hdone b o hb)
  · intro hmoved
    obtain ⟨i, hi, b, o, hb, hlt⟩ := h.moved hmoved
    by_contra hsome
    have hall := isSome_mapM_iff.mp (Option.isSome_iff_ne_none.mpr hsome) i (horder.mem_iff.mp hi)
    rw [hb] at hall
    change (if b = temps.room.buffer then _ else none : Option Arg).isSome = true at hall
    rw [if_neg hlt.ne] at hall
    cases hall

variable (cast phv g registers packet actionData) in
/-- **A call**: it does what the configuration says, if the vector is steady, and goes wrong otherwise. -/
theorem ActionFn.HasCall.executePrimitive (hcall : fn.HasCall paramOffset params call) {order : List ℕ}
    (horder : order.Perm (List.range call.primitive.getNumParams)) (hfits : temps.room.Fits) :
    (∀ {temps' packet' registers'}, executePrimitive cast phv g fn actionData call.primitive paramOffset order temps
        packet registers = some (temps', packet', registers') →
      call.exec cast phv actionData (packet, registers) = some (packet', registers') ∧
        temps.room.Steady g (offsetsIn params order) ∧ temps'.room = temps.room.reachAll g (offsetsIn params order)) ∧
    (∀ {s}, call.exec cast phv actionData (packet, registers) = some s → temps.room.Steady g (offsetsIn params order) →
      ∃ temps', executePrimitive cast phv g fn actionData call.primitive paramOffset order temps packet registers =
        some (temps', s)) := by
  have hlength : call.params.length = call.primitive.getNumParams :=
    hcall.implements.length_eq.symm.trans hcall.length
  have hstart : ArgsRead g params (call.denotes cast phv registers packet actionData) temps.room []
      (List.replicate call.primitive.getNumParams none) temps :=
    ⟨fun i hi => absurd hi List.not_mem_nil, rfl, fun i hi => absurd hi List.not_mem_nil,
      fun i hi => absurd hi List.not_mem_nil, fun i hi => absurd hi List.not_mem_nil,
      fun _ i hi => absurd hi List.not_mem_nil, fun hmoved => absurd trivial hmoved⟩
  have hnodup : ([] ++ order).Nodup := horder.nodup_iff.mpr List.nodup_range
  obtain ⟨hgood, hbad⟩ := hstart.foldlM hcall hfits List.length_replicate
    (fun i hi => List.mem_range.mp (horder.mem_iff.mp hi)) hnodup
  rw [Bm.executePrimitive, ConfigCall.exec, ConfigCall.mapM_denotes hlength]
  by_cases hall : ∀ i ∈ order, (call.denotes cast phv registers packet actionData i).isSome
  · obtain ⟨args, temps', hfold, hlength', hread⟩ := hgood hall
    obtain ⟨hsteady, hmoved⟩ := hread.loadArgs hlength' horder
    rw [hfold]
    by_cases hs : temps.room.Steady g (offsetsIn params order)
    · rw [List.nil_append] at hsteady hread
      simp only [Option.bind_eq_bind, Option.bind_some]
      rw [hsteady hs]
      constructor
      · intro temps'' packet' registers' h
        obtain ⟨as, has, h⟩ := Option.bind_eq_some_iff.mp h
        obtain ⟨⟨packet₁, registers₁⟩, hrun, h⟩ := Option.bind_eq_some_iff.mp h
        cases h
        exact ⟨by rw [has]; exact hrun, hs, hread.room⟩
      · intro s h _
        obtain ⟨as, has, hrun⟩ := Option.bind_eq_some_iff.mp h
        exact ⟨temps', by rw [has]; dsimp only [Option.bind]; rw [hrun]; rfl⟩
    · constructor
      · intro temps'' packet' registers' h
        simp only [Option.bind_eq_bind, Option.bind_some] at h
        rw [hmoved hs] at h
        cases h
      · exact fun _ hs' => absurd hs' hs
  · obtain ⟨i, hi, hnone⟩ : ∃ i ∈ order, call.denotes cast phv registers packet actionData i = none := by
      by_contra hcon
      exact hall fun i hi => Option.isSome_iff_ne_none.mpr fun hnone => hcon ⟨i, hi, hnone⟩
    have hspec : (List.range call.primitive.getNumParams).mapM (call.denotes cast phv registers packet actionData) =
        none := by
      by_contra hsome
      have := isSome_mapM_iff.mp (Option.isSome_iff_ne_none.mpr hsome) i (horder.mem_iff.mp hi)
      rw [hnone] at this
      cases this
    rw [hbad ⟨i, hi, hnone⟩, hspec]
    constructor
    · intro temps' packet' registers' h
      cases h
    · intro s h
      cases h

end Call

/-! ## Actions -/

section Actions

variable {P : Type} {cast : BignumCast} {phv : P → DataPHV} {g : VectorGrowth} {fn : ActionFn P} {actionData : List ℤ}
  {orders : ℕ → List ℕ}

/-- The stretches of `params` that belong to the primitives. -/
def stretches : List (Primitive P) → List ActionParam → List (List ActionParam)
  | [], _ => []
  | primitive :: primitives, params =>
      params.take primitive.getNumParams :: stretches primitives (params.drop primitive.getNumParams)

/-- The vector is steady in every call, from the call `n` on. -/
def SteadyFrom (g : VectorGrowth) (orders : ℕ → List ℕ) : ℕ → Room → List (List ActionParam) → Prop
  | _, _, [] => True
  | n, r, params :: rest =>
      r.Steady g (offsetsIn params (orders n)) ∧
        SteadyFrom g orders (n + 1) (r.reachAll g (offsetsIn params (orders n))) rest

/-- **When an action does not lose a reference**, from the room that the thread has. -/
def ActionFn.Steady (fn : ActionFn P) (g : VectorGrowth) (orders : ℕ → List ℕ) (r : Room) : Prop :=
  SteadyFrom g orders 0 r (stretches fn.primitives fn.params)

/-- The orders are orders of the arguments of the primitives, from the call `n` on. -/
def OrdersOf (orders : ℕ → List ℕ) (n : ℕ) (primitives : List (Primitive P)) : Prop :=
  ∀ k p, primitives[k]? = some p → (orders (n + k)).Perm (List.range p.getNumParams)

/-- The calls of the configuration, one after another. -/
def runCalls (cast : BignumCast) (phv : P → DataPHV) (actionData : List ℤ) (calls : List (ConfigCall P))
    (s : P × Registers) : Option (P × Registers) :=
  calls.foldlM (fun s call => call.exec cast phv actionData s) s

theorem OrdersOf.head {n : ℕ} {primitive : Primitive P} {primitives : List (Primitive P)}
    (h : OrdersOf orders n (primitive :: primitives)) :
    (orders n).Perm (List.range primitive.getNumParams) ∧ OrdersOf orders (n + 1) primitives :=
  ⟨h 0 primitive rfl, fun k p hp => by
    rw [Nat.add_assoc, Nat.add_comm 1 k]
    exact h (k + 1) p hp⟩

/-- The next call, and its stretch of the parameters. -/
theorem ActionFn.LoadedSoFar.hasCall {primitives : List (Primitive P)} {params : List ConfigParam}
    (hloaded : fn.LoadedSoFar primitives params) {call : ConfigCall P} {calls : List (ConfigCall P)} {paramOffset : ℕ}
    (harity : call.params.length = call.primitive.getNumParams)
    (hrest : List.Forall₂ (ActionParam.Implements fn.constValues) (fn.params.drop paramOffset)
      (call.params ++ calls.flatMap ConfigCall.params)) :
    fn.HasCall paramOffset ((fn.params.drop paramOffset).take call.primitive.getNumParams) call := by
  have himpl := List.forall₂_take_append _ _ _ hrest
  rw [harity] at himpl
  have hsublist : List.Sublist ((fn.params.drop paramOffset).take call.primitive.getNumParams) fn.params :=
    (List.take_sublist _ _).trans (List.drop_sublist _ _)
  have hincreasing : (fn.params.filterMap ActionParam.offset?).Pairwise (· < ·) := by
    rw [hloaded.offsets]
    exact List.pairwise_lt_range'
  refine ⟨fun i hi => ?_, himpl, himpl.length_eq.trans harity, ?_, fun p hp o ho => ?_⟩
  · rw [List.getElem?_take_of_lt hi, List.getElem?_drop]
  · exact (List.pairwise_filterMap.mp hincreasing).sublist hsublist
  · have hmem : o ∈ fn.params.filterMap ActionParam.offset? := List.mem_filterMap.mpr ⟨p, hsublist.subset hp, ho⟩
    rw [hloaded.offsets, List.mem_range'_1] at hmem
    omega

variable (cast phv g actionData) in
/-- **The loop over the primitives**, from some call on. -/
theorem ActionFn.LoadedSoFar.executePrimitives {primitives : List (Primitive P)} {params : List ConfigParam}
    (hloaded : fn.LoadedSoFar primitives params) {calls : List (ConfigCall P)}
    (harity : ∀ call ∈ calls, call.params.length = call.primitive.getNumParams) {n paramOffset : ℕ}
    (hrest : List.Forall₂ (ActionParam.Implements fn.constValues) (fn.params.drop paramOffset)
      (calls.flatMap ConfigCall.params)) (horders : OrdersOf orders n (calls.map ConfigCall.primitive))
    {temps : DataTemps} (hfits : temps.room.Fits) (s : P × Registers) :
    (∀ {temps' s'}, executePrimitives cast phv g fn actionData orders n paramOffset (calls.map ConfigCall.primitive)
      temps
        s.1 s.2 = some (temps', s') →
      runCalls cast phv actionData calls s = some s' ∧ SteadyFrom g orders n temps.room
        (stretches (calls.map ConfigCall.primitive) (fn.params.drop paramOffset)) ∧
      temps'.room.Fits ∧ temps.room.capacity ≤ temps'.room.capacity ∧
      ∀ p ∈ fn.params.drop paramOffset, ∀ o ∈ p.offset?, o < temps'.room.capacity) ∧
    (∀ {s'}, runCalls cast phv actionData calls s = some s' → SteadyFrom g orders n temps.room
        (stretches (calls.map ConfigCall.primitive) (fn.params.drop paramOffset)) →
      ∃ temps', executePrimitives cast phv g fn actionData orders n paramOffset (calls.map ConfigCall.primitive) temps
        s.1 s.2 = some (temps', s')) := by
  induction calls generalizing n paramOffset temps s with
  | nil =>
    have hnil : fn.params.drop paramOffset = [] := List.forall₂_nil_right_iff.mp hrest
    constructor
    · intro temps' s' h
      cases h
      exact ⟨rfl, trivial, hfits, le_rfl, fun p hp => absurd hp (by rw [hnil]; exact List.not_mem_nil)⟩
    · intro s' h _
      cases h
      exact ⟨temps, rfl⟩
  | cons call calls ih =>
    have hcallArity := harity call List.mem_cons_self
    have hcall := hloaded.hasCall hcallArity hrest
    obtain ⟨horder, horders⟩ := horders.head
    obtain ⟨hgood, hback⟩ := hcall.executePrimitive cast phv g s.2 s.1 actionData horder hfits
    have hdrop := List.forall₂_drop_append _ _ _ hrest
    rw [hcallArity, List.drop_drop] at hdrop
    have hstretches : stretches ((call :: calls).map ConfigCall.primitive) (fn.params.drop paramOffset) =
        (fn.params.drop paramOffset).take call.primitive.getNumParams ::
          stretches (calls.map ConfigCall.primitive) (fn.params.drop (paramOffset + call.primitive.getNumParams)) := by
      rw [List.map_cons, stretches, List.drop_drop]
    obtain ⟨hfits', hcapacity, -, hreached, -⟩ := Room.reachAll_spec (g := g) hfits
      (offsetsIn ((fn.params.drop paramOffset).take call.primitive.getNumParams) (orders n))
    rw [hstretches]
    constructor
    · intro temps' s' h
      obtain ⟨⟨temps₁, packet₁, registers₁⟩, h₁, h⟩ := Option.bind_eq_some_iff.mp h
      obtain ⟨hexec, hsteady, hroom⟩ := hgood h₁
      rw [← hroom] at hfits' hcapacity hreached
      obtain ⟨hruns, hsteady', hfits'', hcapacity', hall⟩ := (ih (fun c hc =>
        harity c (List.mem_cons_of_mem call hc)) hdrop
        horders hfits' (packet₁, registers₁)).1 h
      refine ⟨?_, ⟨hsteady, hroom ▸ hsteady'⟩, hfits'', hcapacity.trans hcapacity', fun p hp o ho => ?_⟩
      · rw [runCalls, List.foldlM_cons, hexec]
        exact hruns
      · rw [← List.take_append_drop call.primitive.getNumParams (fn.params.drop paramOffset), List.drop_drop] at hp
        rcases List.mem_append.mp hp with hp | hp
        · -- the order has every argument of the call
          obtain ⟨i, hi⟩ := List.mem_iff_getElem?.mp hp
          have hlt := (List.getElem?_eq_some_iff.mp hi).1
          rw [hcall.length] at hlt
          refine lt_of_lt_of_le (hreached o (List.mem_filterMap.mpr ⟨i, ?_, by rw [hi]; exact ho⟩)) hcapacity'
          exact horder.mem_iff.mpr (List.mem_range.mpr hlt)
        · exact hall p hp o ho
    · intro s' h hsteady
      obtain ⟨s₁, hexec, hruns⟩ := Option.bind_eq_some_iff.mp h
      obtain ⟨temps₁, h₁⟩ := hback hexec hsteady.1
      obtain ⟨-, -, hroom⟩ := hgood h₁
      rw [← hroom] at hfits'
      obtain ⟨temps', h'⟩ := (ih (fun c hc => harity c (List.mem_cons_of_mem call hc)) hdrop horders hfits' s₁).2 hruns
        (hroom ▸ hsteady.2)
      exact ⟨temps', Option.bind_eq_some_iff.mpr ⟨_, h₁, h'⟩⟩

/-- There is room for all results from the start. -/
theorem steadyFrom_of_room {primitives : List (Primitive P)} {params : List ActionParam} {n : ℕ} {r : Room} (hr :
    r.Fits)
    (hroom : ∀ p ∈ params, ∀ o ∈ p.offset?, o < r.capacity) : SteadyFrom g orders n r (stretches primitives params) :=
      by
  induction primitives generalizing params n r with
  | nil => trivial
  | cons primitive primitives ih =>
    have hoffsets : ∀ o ∈ offsetsIn (params.take primitive.getNumParams) (orders n), o < r.capacity := by
      intro o ho
      obtain ⟨i, -, hi⟩ := List.mem_filterMap.mp ho
      obtain ⟨p, hp, hpo⟩ := Option.bind_eq_some_iff.mp hi
      exact hroom p (List.mem_of_mem_take (List.mem_of_getElem? hp)) o hpo
    obtain ⟨hfits, hcapacity, -⟩ := Room.reachAll_spec (g := g) hr
      (offsetsIn (params.take primitive.getNumParams) (orders n))
    exact ⟨Room.steady_of_room hr hoffsets, ih hfits fun p hp o ho =>
      lt_of_lt_of_le (hroom p (List.mem_of_mem_drop hp) o ho) hcapacity⟩

/-- From right to left, the first result of a call takes the vector to its size. -/
theorem steadyFrom_of_reverse {primitives : List (Primitive P)} {params : List ActionParam} {n : ℕ} {r : Room}
    (hr : r.Fits) (hincreasing : params.Pairwise fun p p' => ∀ o ∈ p.offset?, ∀ o' ∈ p'.offset?, o < o')
    (horders : ∀ k p, primitives[k]? = some p → orders (n + k) = (List.range p.getNumParams).reverse) :
    SteadyFrom g orders n r (stretches primitives params) := by
  induction primitives generalizing params n r with
  | nil => trivial
  | cons primitive primitives ih =>
    have horder : orders n = (List.range primitive.getNumParams).reverse := horders 0 primitive rfl
    refine ⟨Room.steady_of_decreasing hr ?_, ih (Room.reachAll_spec hr _).1 (hincreasing.sublist (List.drop_sublist _
      _))
      fun k p hp => ?_⟩
    · rw [horder, offsetsIn, List.filterMap_reverse, List.pairwise_reverse, List.pairwise_filterMap]
      refine List.pairwise_lt_range.imp fun {i j} hij o ho o' ho' => ?_
      obtain ⟨p, hp, hpo⟩ := Option.bind_eq_some_iff.mp ho
      obtain ⟨q, hq, hqo⟩ := Option.bind_eq_some_iff.mp ho'
      have hsub := hincreasing.sublist (List.take_sublist primitive.getNumParams params)
      obtain ⟨hi, rfl⟩ := List.getElem?_eq_some_iff.mp hp
      obtain ⟨hj, rfl⟩ := List.getElem?_eq_some_iff.mp hq
      exact List.pairwise_iff_getElem.mp hsub i j hi hj hij o hpo o' hqo
    · rw [Nat.add_assoc, Nat.add_comm 1 k]
      exact horders (k + 1) p hp

/-- What the execution of a loaded action does, on every thread and for every order of evaluation.

* It is that of the calls of the configuration, exactly when no reference is lost.
* From right to left, none is.
* After the thread has executed the action once, none is in any order. -/
structure ActionFn.ExecutesAs (fn : ActionFn P) (cast : BignumCast) (phv : P → DataPHV) (g : VectorGrowth)
    (calls : List (ConfigCall P)) : Prop where
  means : ∀ actionData orders temps packet registers, temps.room.Fits → OrdersOf orders 0 fn.primitives → ∀ s,
    (∃ temps', fn.execute cast phv g actionData orders temps packet registers = some (temps', s)) ↔
      runCalls cast phv actionData calls (packet, registers) = some s ∧ fn.Steady g orders temps.room
  rightToLeft : ∀ orders r, r.Fits → (∀ k p, fn.primitives[k]? = some p →
    orders k = (List.range p.getNumParams).reverse) →
    fn.Steady g orders r
  again : ∀ actionData orders temps packet registers temps' s, temps.room.Fits → OrdersOf orders 0 fn.primitives →
    fn.execute cast phv g actionData orders temps packet registers = some (temps', s) →
      temps'.room.Fits ∧ ∀ orders', fn.Steady g orders' temps'.room

theorem ActionFn.Loaded.executesAs {calls : List (ConfigCall P)} (h : fn.Loaded calls) :
    fn.ExecutesAs cast phv g calls := by
  have hrest : List.Forall₂ (ActionParam.Implements fn.constValues) (fn.params.drop 0)
      (calls.flatMap ConfigCall.params) := h.params
  have hexecute := fun (actionData) {orders n} (horders : OrdersOf orders n (calls.map ConfigCall.primitive))
    {temps : DataTemps} (hfits : temps.room.Fits) (s : P × Registers) =>
    h.toLoadedSoFar.executePrimitives cast phv g actionData h.arity hrest horders hfits s
  refine ⟨fun actionData orders temps packet registers hfits horders s => ?_, fun orders r hr horders => ?_,
    fun actionData orders temps packet registers temps' s hfits horders hexec => ?_⟩
  · rw [h.primitives] at horders
    rw [ActionFn.execute, ActionFn.Steady, h.primitives]
    obtain ⟨hforward, hback⟩ := hexecute actionData horders hfits (packet, registers)
    constructor
    · rintro ⟨temps', hexec⟩
      obtain ⟨hruns, hsteady, -⟩ := hforward hexec
      exact ⟨hruns, hsteady⟩
    · rintro ⟨hruns, hsteady⟩
      exact hback hruns hsteady
  · refine steadyFrom_of_reverse hr ?_ fun k p hp => by rw [Nat.zero_add]; exact horders k p hp
    refine List.pairwise_filterMap.mp ?_
    rw [h.offsets]
    exact List.pairwise_lt_range'
  · rw [h.primitives] at horders
    rw [ActionFn.execute, h.primitives] at hexec
    obtain ⟨-, -, hfits', -, hall⟩ := (hexecute actionData horders hfits (packet, registers)).1 hexec
    exact ⟨hfits', fun orders' => steadyFrom_of_room hfits' hall⟩

end Actions

/-- **Loaded actions** do what the configuration says, and the assertion about `nb_data_tmps` holds, also when other
configurations are loaded later. -/
theorem actions_execute {P : Type} (cast : BignumCast) (phv : P → DataPHV) (g : VectorGrowth) (names : ActionNames)
    (opcodes : String → Option (Primitive P)) {s : ActionLoader P} (htmps : 1 ≤ s.nbDataTmps)
    (actions : List (List JsonCall)) :
    match s.loadActions cast names opcodes actions with
    | .ok (fns, s') => List.Forall₂ (fun fn json => ∃ calls, json.mapM (JsonCall.resolve cast names opcodes) =
      some calls ∧
        fn.ExecutesAs cast phv g calls) fns actions ∧ 1 ≤ s'.nbDataTmps
    | .error e => e ≠ .dataTmps := by
  have hspec := ActionLoader.loadActions_spec cast names opcodes htmps actions
  cases hload : s.loadActions cast names opcodes actions with
  | error e =>
    rw [hload] at hspec
    exact hspec
  | ok r =>
    rw [hload] at hspec
    refine ⟨hspec.1.imp fun fn json h => ?_, hspec.2⟩
    obtain ⟨calls, hcalls, hloaded⟩ := h
    exact ⟨calls, hcalls, hloaded.executesAs⟩

/-- Capacities are doubled. -/
def VectorGrowth.double : VectorGrowth := ⟨fun n => max 1 (2 * n), fun n => by omega⟩

/-- From left to right, a fourth expression in a call makes the vector move. -/
example : ¬ Room.Steady .double ({} : DataTemps).room [1, 2, 3, 4] := by
  intro h
  exact absurd (h 4 (by simp)) (by decide)

/-- Names of the configuration `counterAction`. -/
def counterNames : ActionNames where
  headerId _ := none
  fieldOffset _ _ := none
  registerArray name := if name = "r" then some 0 else none
  headerStackId _ := none
  calculation _ := none
  meterArray _ := none
  counterArray _ := none
  externInstance _ := none

/-- `register_write(r, 0, r[0] + amount)`. -/
def counterAction (amount : String) : List JsonCall :=
  [⟨"register_write", [.registerArray "r", .hexstr "0x0",
    .expression (.expression "+" .null (.register "r" (.hexstr "0x0")) (.hexstr amount))]⟩]

theorem actions_execute_counter : ∃ fn s' calls,
    ActionLoader.loadActions .checked counterNames (Primitive.opcodesMap .checked) {} [counterAction "0x1"] =
      .ok ([fn], s') ∧
    (counterAction "0x1").mapM (JsonCall.resolve .checked counterNames (Primitive.opcodesMap .checked)) = some calls ∧
    fn.ExecutesAs .checked id .double calls := by
  have h := actions_execute .checked id .double counterNames (Primitive.opcodesMap .checked)
    (show 1 ≤ ({} : ActionLoader DataPHV).nbDataTmps from le_rfl) [counterAction "0x1"]
  obtain ⟨fn, s', hload⟩ : ∃ fn s', ActionLoader.loadActions .checked counterNames (Primitive.opcodesMap .checked) {}
      [counterAction "0x1"] = .ok ([fn], s') := ⟨_, _, rfl⟩
  rw [hload] at h
  obtain ⟨calls, hcalls, hexecutes⟩ := (List.forall₂_cons.mp h.1).1
  exact ⟨fn, s', calls, hload, hcalls, hexecutes⟩

end Bm
