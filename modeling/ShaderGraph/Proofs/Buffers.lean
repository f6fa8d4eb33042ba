import Mathlib.Data.List.GetD
import ShaderGraph.Graph.Buffers
import ShaderGraph.Proofs.Glsl.Operators

namespace ShaderGraph

theorem Shape.size_le (s : Shape) : s.size ≤ 16 := by cases s <;> decide

theorem Value.get_of_le (v : Value) {i : Nat} (h : v.size ≤ i) : v.get i = .zero := by
  rw [Value.get, List.getD_eq_default _ _ (by rw [v.length_eq]; exact h)]

namespace Buffer

/-- Past the live components there are only zeros. -/
def Clean (b : Buffer) : Prop := ∀ (i : Nat) (h : i < 16), b.size ≤ i → b.data[i] = .zero

def ofValue (v : Value) : Buffer := ⟨v.shape, .ofFn fun i => v.get i⟩

theorem ext_places {a b : Buffer} (hs : a.shape = b.shape)
    (hd : ∀ (i : Nat) (h : i < 16), a.data[i] = b.data[i]) : a = b := by
  obtain ⟨s, d⟩ := a
  obtain ⟨t, e⟩ := b
  obtain rfl : s = t := hs
  obtain rfl : d = e := Vector.ext hd
  rfl

@[simp] theorem shape_ofValue (v : Value) : (ofValue v).shape = v.shape := rfl

@[simp] theorem size_ofValue (v : Value) : (ofValue v).size = v.size := rfl

@[simp] theorem isEmpty_ofValue (v : Value) : (ofValue v).isEmpty = v.isEmpty := rfl

@[simp] theorem data_ofValue (v : Value) {i : Nat} (h : i < 16) :
    (ofValue v).data[i] = v.get i := by
  simp [ofValue]

theorem clean_ofValue (v : Value) : (ofValue v).Clean := by
  intro i h hi
  rw [data_ofValue v h]
  exact v.get_of_le hi

/-- The first places, as many as a shape has components, are the components of a value. -/
theorem take_toList {data : Vector Scalar 16} {s : Shape} {f : Nat → Scalar}
    (h : ∀ (i : Nat) (hi : i < 16), i < s.size → data[i] = f i) :
    data.toList.take s.size = (Value.tabulate s f).components := by
  have hle := s.size_le
  apply List.ext_getElem
  · simp [Value.tabulate, hle]
  · intro i hi hi'
    have hs : i < s.size := by simpa [Value.tabulate] using hi'
    simp [Value.tabulate, h i (by omega) hs]

@[simp] theorem live_ofValue (v : Value) : (ofValue v).live = v.components := by
  rw [live, size_ofValue, Value.size, take_toList (f := v.get) fun i hi _ => data_ofValue v hi]
  apply List.ext_getElem
  · simp [Value.tabulate, v.length_eq]
  · intro i _ hi
    simp [Value.tabulate, Value.get, hi]

@[simp] theorem get_ofValue (v : Value) (i : Nat) : (ofValue v).get i = v.get i := by
  unfold Buffer.get
  split
  · rename_i h
    have hi : i < 16 := Nat.lt_of_lt_of_le h (Shape.size_le _)
    rw [List.getD_eq_getElem _ _ (by simpa using hi), Vector.getElem_toList, data_ofValue]
  · rename_i h
    rw [v.get_of_le (Nat.not_lt.mp h)]

@[simp] theorem spread_ofValue (v : Value) (i : Nat) : (ofValue v).spread i = v.spread i := by
  simp [spread, Value.spread_eq]

section Clean

theorem getElem_zeros {i : Nat} (h : i < 16) : zeros[i] = .zero := by simp [zeros]

variable {a b : Buffer}

/-- Whether two buffers hold equal numbers in all places; the two zeros are equal numbers. -/
def same (a b : Buffer) : Bool := a.shape = b.shape && a.data.toList == b.data.toList

theorem Clean.toList_eq (h : b.Clean) :
    b.data.toList = b.live ++ List.replicate (16 - b.size) .zero := by
  have hle : b.size ≤ 16 := b.shape.size_le
  apply List.ext_getElem
  · simp [live, hle]
  · intro i hi _
    have hi' : i < 16 := by simpa using hi
    by_cases hlive : i < b.size
    · rw [List.getElem_append_left (by simp [live]; omega)]
      simp [live]
    · rw [List.getElem_append_right (by simp [live]; omega), List.getElem_replicate,
        Vector.getElem_toList]
      exact h i hi' (by omega)

theorem length_live (b : Buffer) : b.live.length = b.size := by
  have hle : b.size ≤ 16 := b.shape.size_le
  simp [live, hle]

theorem shape_eq_of_live (h : a.live.length = b.live.length) : a.shape = b.shape := by
  rw [length_live, length_live] at h
  exact Shape.size_injective h

/-- A clean buffer without live components is all zeros. -/
theorem Clean.data_eq_zeros (h : b.Clean) (hb : b.isEmpty = true) : b.data = zeros := by
  have hsize : b.size = 0 := by simp_all [isEmpty, size, Shape.size]
  refine Vector.ext fun i hi => ?_
  rw [h i hi (by omega), getElem_zeros]

/-- Clean buffers are told apart by their live components. -/
theorem Clean.live_eq_iff (ha : a.Clean) (hb : b.Clean) : a.live = b.live ↔ a = b := by
  constructor
  · intro h
    have hshape := shape_eq_of_live (congrArg List.length h)
    have hdata : a.data = b.data := by
      apply Vector.toList_inj.mp
      rw [ha.toList_eq, hb.toList_eq, h, size, hshape, size]
    exact ext_places hshape fun i _ => by rw [hdata]
  · rintro rfl
    rfl

theorem append_beq_append {xs ys : List Scalar} (h : xs.length = ys.length) (zs : List Scalar) :
    (xs ++ zs == ys ++ zs) = (xs == ys && zs == zs) := by
  induction xs generalizing ys with
  | nil =>
    obtain rfl := List.length_eq_zero_iff.mp h.symm
    simp
  | cons x xs ih =>
    cases ys with
    | nil => cases h
    | cons y ys =>
      rw [List.cons_append, List.cons_append, List.cons_beq_cons, List.cons_beq_cons,
        ih (Nat.succ.inj h), Bool.and_assoc]

/-- The same by the equality of numbers. -/
theorem Clean.live_beq (ha : a.Clean) (hb : b.Clean) : (a.live == b.live) = a.same b := by
  unfold same
  by_cases hshape : a.shape = b.shape
  · have hlength : a.live.length = b.live.length := by
      rw [length_live, length_live, size, hshape, size]
    have hsize : a.size = b.size := congrArg Shape.size hshape
    have hzero : (Scalar.zero == Scalar.zero) = true := by decide
    rw [ha.toList_eq, hb.toList_eq, hsize, append_beq_append hlength,
      List.replicate_beq_replicate, hzero]
    simp [hshape]
  · have hne : (a.live == b.live) = false :=
      Bool.eq_false_of_not_eq_true fun h => hshape (shape_eq_of_live (List.length_eq_of_beq h))
    simp [hshape, hne]

end Clean

theorem zeroed_eq (s : Shape) : zeroed s = ofValue (.zero s) := by
  refine ext_places rfl fun i h => ?_
  rw [data_ofValue, zeroed, getElem_zeros]
  by_cases hi : i < s.size
  · rw [Value.zero, Value.get_tabulate _ hi]
  · exact (Value.get_of_le _ (Nat.not_lt.mp hi)).symm

theorem empty_eq : empty = ofValue .empty := zeroed_eq .empty

theorem getElem_overwrite (data : Vector Scalar 16) (xs : List Scalar) {i : Nat} (h : i < 16) :
    (overwrite data xs)[i] = xs.getD i data[i] := by
  simp [overwrite]

theorem ofSlice?_eq (xs : List Scalar) : ofSlice? xs = (Value.ofList? xs).map ofValue := by
  unfold ofSlice? Value.ofList?
  split
  · rename_i s hs
    simp only [hs, Option.map_some]
    refine congrArg some (ext_places rfl fun i h => ?_)
    simp only [getElem_overwrite, getElem_zeros, data_ofValue, Value.get]
  · rename_i hs
    rw [hs]
    rfl

theorem ofSlice_eq (xs : List Scalar) : ofSlice xs = ofValue (.ofList xs) := by
  rw [ofSlice, ofSlice?_eq, Value.ofList, empty_eq, Option.getD_map]

/-- The components of a value, taken as a slice, make the same value again. -/
theorem ofSlice_components (v : Value) : ofSlice v.components = ofValue v := by
  rw [ofSlice_eq, Value.ofList, Value.ofList?_components, Option.getD_some]

/-- The buffer that a literal of this shape is set to. -/
theorem ofSlice?_filter (xs : List Scalar) (s : Shape) :
    (ofSlice? xs).filter (·.shape = s) =
      if h : xs.length = s.size then some (ofValue ⟨s, xs, h⟩) else none := by
  split
  · rename_i h
    have hlist := Value.ofList?_components ⟨s, xs, h⟩
    rw [ofSlice?_eq, hlist]
    simp
  · rename_i h
    refine Option.filter_eq_none_iff.mpr fun b hb => ?_
    obtain ⟨t, ht, rfl⟩ := Option.map_eq_some_iff.mp hb
    intro hs
    have hsize := Shape.size_of_ofSize? ht
    exact h ((of_decide_eq_true hs : t = s) ▸ hsize.symm)

/-- Of the places only the live ones go into the buffer that is made of them. -/
theorem ofSlice_take {data : Vector Scalar 16} {s : Shape} {f : Nat → Scalar}
    (h : ∀ (i : Nat) (hi : i < 16), i < s.size → data[i] = f i) :
    ofSlice (data.toList.take s.size) = ofValue (.tabulate s f) := by
  rw [take_toList h, ofSlice_components]

theorem scalar_eq (x : Scalar) : scalar x = ofValue (.scalar x) := by
  refine ext_places rfl fun i h => ?_
  rw [data_ofValue]
  cases i <;> simp [scalar, getElem_zeros, Value.get, Value.scalar]

theorem getElem_foldl_set (writes : List (Nat × Scalar)) (data : Vector Scalar 16) {i : Nat}
    (hi : i < 16) (h : i ∉ writes.map (·.1)) :
    (writes.foldl (fun data w => data.setIfInBounds w.1 w.2) data)[i] = data[i] := by
  induction writes generalizing data with
  | nil => rfl
  | cons w writes ih =>
    rw [List.map_cons, List.mem_cons, not_or] at h
    rw [List.foldl_cons, ih _ h.2, Vector.getElem_setIfInBounds_ne hi (Ne.symm h.1)]

/-- With one write to a place, the place holds what was written. -/
theorem getElem_writeAll {writes : List (Nat × Scalar)} (hu : (writes.map (·.1)).Nodup) {i : Nat}
    {x : Scalar} (hi : i < 16) (h : (i, x) ∈ writes) : (writeAll writes)[i] = x := by
  unfold writeAll
  generalize zeros = data
  induction writes generalizing data with
  | nil => cases h
  | cons w writes ih =>
    rw [List.map_cons, List.nodup_cons] at hu
    rw [List.foldl_cons]
    rcases List.mem_cons.mp h with rfl | h
    · rw [getElem_foldl_set _ _ hi hu.1, Vector.getElem_setIfInBounds_self]
    · exact ih hu.2 h _

theorem mem_grid {c r : Nat} (hc : c < 4) (hr : r < 4) : (c, r) ∈ grid := by
  simp [grid, hc, hr]

/-- A matrix that is written element by element, each to its own place. -/
theorem ofSlice_writeAll {place : Nat × Nat → Nat} {f : Nat × Nat → Scalar} {g : Nat → Scalar}
    (hu : (grid.map place).Nodup)
    (h : ∀ i < 16, ∃ p ∈ grid, place p = i ∧ f p = g i) :
    ofSlice (writeAll (grid.map fun p => (place p, f p))).toList = ofValue (.tabulate .mat4 g) := by
  have htake : (writeAll (grid.map fun p => (place p, f p))).toList =
      (writeAll (grid.map fun p => (place p, f p))).toList.take Shape.mat4.size := by
    rw [List.take_of_length_le (by simp [Shape.size])]
  rw [htake]
  refine ofSlice_take fun i hi _ => ?_
  obtain ⟨p, hp, hplace, hf⟩ := h i hi
  refine getElem_writeAll ?_ hi ?_
  · rw [List.map_map]
    exact hu
  · exact List.mem_map.mpr ⟨p, hp, by rw [hplace, hf]⟩

theorem identity_eq : identity = ofValue .identity := by
  decide

theorem map_eq (f : Scalar → Scalar) (v : Value) : (ofValue v).map f = ofValue (v.map f) := by
  rw [Value.map_eq_tabulate, map]
  refine ofSlice_take fun i hi hlt => ?_
  rw [Value.spread_eq_get hlt]
  simp [updateFirst, show i < v.size from hlt]

theorem zip_eq (f : Scalar → Scalar → Scalar) (v w : Value) :
    zip f (ofValue v) (ofValue w) = (Value.zip f v w).map ofValue := by
  rw [zip, Value.zip, Option.map_map]
  refine congrArg₂ Option.map (funext fun s => ofSlice_take fun i hi hlt => ?_) rfl
  simp [fillFirst, hlt]

/-- Three operands that go together have a shape, and the slice of their results fits it. -/
theorem zip3_eq (f : Scalar → Scalar → Scalar → Scalar) (u v w : Value) :
    zip3 f (ofValue u) (ofValue v) (ofValue w) = (Value.zip3 f u v w).map ofValue := by
  obtain ⟨s, hs⟩ : ∃ s : Shape, max u.size (max v.size w.size) = s.size := by
    rcases max_choice u.size (max v.size w.size) with h | h
    · exact ⟨u.shape, h⟩
    · rcases max_choice v.size w.size with h' | h'
      · exact ⟨v.shape, h.trans h'⟩
      · exact ⟨w.shape, h.trans h'⟩
  simp only [zip3, Value.zip3, size_ofValue, spread_ofValue, hs, Shape.ofSize?_size,
    Option.map_some, apply_ite (Option.map ofValue), Option.map_none]
  exact if_congr Iff.rfl (congrArg some (ofSlice_components (.tabulate s _))) rfl

theorem dot_eq (v w : Value) : dot (ofValue v) (ofValue w) = v.dot w := by
  simp [dot, Value.dot]

theorem norm_eq (v : Value) : norm (ofValue v) = v.norm := by
  rw [norm, dot_eq, Value.norm]

theorem normalize_eq (v : Value) : normalize (ofValue v) = ofValue v.normalize := by
  simp only [normalize, Value.normalize, norm_eq, map_eq, zeroed_eq, shape_ofValue]
  split <;> rfl

theorem cross_eq (v w : Value) : cross (ofValue v) (ofValue w) = ofValue (v.cross w) := by
  simp only [cross, get_ofValue]
  exact ofSlice_components (v.cross w)

theorem project_eq (v w : Value) : project (ofValue v) (ofValue w) = ofValue (v.project w) := by
  simp only [project, Value.project, dot_eq, map_eq, zeroed_eq, shape_ofValue]
  split <;> rfl

theorem transform_eq (m v : Value) :
    transform (ofValue m) (ofValue v) = ofValue (m.transform v) := by
  simp only [transform, get_ofValue]
  exact ofSlice_components (m.transform v)

theorem matMul_eq (v w : Value) : matMul (ofValue v) (ofValue w) = ofValue (v.matMul w) := by
  simp only [matMul, get_ofValue]
  refine ofSlice_writeAll (by decide) fun i hi => ?_
  exact ⟨(i / 4, i % 4), mem_grid (by omega) (by omega), by simp only; omega, rfl⟩

theorem transpose_eq (m : Value) : transpose (ofValue m) = ofValue m.transpose := by
  simp only [transpose, get_ofValue]
  refine ofSlice_writeAll (by decide) fun i hi => ?_
  exact ⟨(i % 4, i / 4), mem_grid (by omega) (by omega), by simp only; omega, rfl⟩

theorem multiply_eq (v w : Value) :
    multiply (ofValue v) (ofValue w) = (v.multiply w).map ofValue := by
  simp only [multiply, Value.multiply_eq, size_ofValue, Value.size_eq_four, Value.size_eq_sixteen,
    transform_eq, matMul_eq, zip_eq]
  split
  · rfl
  · split
    · rfl
    · split <;> rfl

theorem concat_eq (vs : List Value) :
    concat (vs.map ofValue) = (Value.concat vs).map ofValue := by
  simp only [concat, Value.concat, List.flatMap_map, live_ofValue, ofSlice?_eq]
  split <;> rfl

theorem desaturate_eq (v : Value) (amount : Scalar) :
    desaturate (ofValue v) amount = ofValue (v.desaturate amount) := by
  simp only [desaturate, Value.desaturate, get_ofValue]
  refine ofSlice_take fun i hi _ => ?_
  simp [updateFirst]

/-- Three components at most, zeros in the place of those that are missing, and a one behind. -/
theorem padded_eq (xs : List Scalar) (h : xs.length ≤ 3) :
    { zeroed .vec4 with data := (overwrite zeros xs).set 3 .one } =
      ofValue (.vec4 (xs.getD 0 .zero) (xs.getD 1 .zero) (xs.getD 2 .zero) .one) := by
  refine ext_places rfl fun i hi => ?_
  rw [data_ofValue _ hi, Vector.getElem_set, getElem_overwrite, getElem_zeros]
  match i with
  | 0 | 1 | 2 | 3 => rfl
  | i + 4 =>
    rw [if_neg (by omega), List.getD_eq_default _ _ (by omega)]
    rfl

theorem widen_eq (v : Value) : widen (ofValue v) = ofValue v.widen := by
  unfold widen
  rw [live_ofValue, size_ofValue, data_ofValue v (by decide)]
  obtain ⟨s, xs, h⟩ := v
  match xs, s, h with
  | [], .empty, _ => exact padded_eq [] (by decide)
  | [x], .scalar, _ => exact padded_eq [x, x, x] (by simp)
  | [x, y], .vec2, _ => exact padded_eq [x, y] (by simp)
  | [x, y, z], .vec3, _ => exact padded_eq [x, y, z] (by simp)
  | [x, y, z, w], .vec4, h =>
    have htake : (ofValue ⟨.vec4, [x, y, z, w], h⟩).data.toList.take 4 = [x, y, z, w] :=
      live_ofValue ⟨.vec4, [x, y, z, w], h⟩
    rw [htake]
    exact ofSlice_components (.vec4 x y z w)
  | _ :: _ :: _ :: _ :: _ :: _, .mat4, _ => exact padded_eq [] (by decide)

def ofSlots (operands : Slots Value) : Slots Buffer := operands.apply fun v => some (ofValue v)

theorem at?_ofSlots (operands : Slots Value) (i : Nat) :
    (ofSlots operands).at? i = (operands.at? i).map ofValue := by
  rw [ofSlots, Slots.at?_apply]
  cases operands.at? i <;> rfl

theorem filled_ofSlots (operands : Slots Value) :
    (ofSlots operands).filled = operands.filled.map ofValue := by
  rw [ofSlots, Slots.filled_apply, List.filterMap_eq_map']

theorem getD_ofSlots (operands : Slots Value) (i : Nat) :
    ((ofSlots operands).at? i).getD empty = ofValue ((operands.at? i).getD .empty) := by
  rw [at?_ofSlots, empty_eq, Option.getD_map]

theorem isMet_eq (r : Requirement) (operands : Slots Value) :
    isMet r (ofSlots operands) = r.isMet operands := by
  cases r with
  | nothing => rfl
  | anySlot => simp [isMet, Requirement.isMet, filled_ofSlots, Function.comp_def]
  | leading n =>
    simp only [isMet, Requirement.isMet, at?_ofSlots, Option.any_map, isEmpty_ofValue]

theorem channel_eq (operand : Option Value) :
    channel (operand.map ofValue) = Channel.ofInput operand := by
  cases operand with
  | none => rfl
  | some v => simp [channel, Channel.ofInput]

theorem foldAll_eq {f : Buffer → Buffer → Option Buffer} {f' : Value → Value → Option Value}
    (h : ∀ v w, f (ofValue v) (ofValue w) = (f' v w).map ofValue) (vs : List Value) :
    foldAll f (vs.map ofValue) = (foldValues f' vs).map ofValue := by
  cases vs with
  | nil => rfl
  | cons v vs =>
    rw [List.map_cons, foldAll, foldValues]
    induction vs generalizing v with
    | nil => rfl
    | cons w vs ih =>
      rw [List.map_cons, List.foldlM_cons, List.foldlM_cons, h]
      cases f' v w with
      | none => rfl
      | some u => exact ih u

/-- The kinds that take operands together do so on buffers by the functions of values. -/
theorem folded?_eq (kind : Kind) (vs : List Value) :
    (folded? kind).map (fun f => foldAll f (vs.map ofValue)) =
      kind.folded?.map fun f => (foldValues f vs).map ofValue := by
  cases kind with
  | add | subtract | divide | max | min => exact congrArg some (foldAll_eq (zip_eq _) vs)
  | multiply => exact congrArg some (foldAll_eq multiply_eq vs)
  | _ => rfl

theorem operate_eq (kind : Kind) (operands : Slots Value) :
    operate kind (ofSlots operands) = (ShaderGraph.operate kind operands).map ofValue := by
  unfold operate ShaderGraph.operate
  rw [getD_ofSlots, getD_ofSlots, getD_ofSlots]
  generalize (operands.at? 0).getD .empty = a, (operands.at? 1).getD .empty = b,
    (operands.at? 2).getD .empty = c
  cases kind <;>
    simp only [at?_ofSlots, filled_ofSlots, size_ofValue, get_ofValue, concat_eq, normalize_eq,
      norm_eq, dot_eq, scalar_eq, zip_eq, cross_eq, project_eq, desaturate_eq, zip3_eq,
      transpose_eq, matMul_eq, channel_eq, zeroed_eq, Option.map_map, Function.comp_def,
      apply_ite (Option.map ofValue), Option.map_some, Option.map_none]

theorem sinkValue_eq (kind : Kind) (operand : Option Value) :
    sinkValue kind (operand.map ofValue) = ofValue (ShaderGraph.sinkValue kind operand) := by
  cases operand with
  | some v => exact widen_eq v
  | none =>
    rw [Option.map_none, sinkValue, ShaderGraph.sinkValue]
    split
    · exact ofSlice_components (.vec4 .one .one .one .one)
    · exact ofSlice_components Value.empty.widen

/-- Arithmetic nodes and operators. -/
theorem applied_eq (kind : Kind) (operands : Slots Value) :
    (match folded? kind, kind.unary? with
      | some f, _ => (foldAll f (ofSlots operands).filled).getD .empty
      | none, some f => (((ofSlots operands).at? 0).getD .empty).map f
      | none, none => (operate kind (ofSlots operands)).getD .empty) =
    ofValue (match kind.folded?, kind.unary? with
      | some f, _ => (foldValues f operands.filled).getD .empty
      | none, some f => ((operands.at? 0).getD .empty).map f
      | none, none => (ShaderGraph.operate kind operands).getD .empty) := by
  have hfold := folded?_eq kind operands.filled
  rw [filled_ofSlots, getD_ofSlots, operate_eq, empty_eq]
  cases hb : folded? kind with
  | some f =>
    cases hv : kind.folded? with
    | some f' =>
      rw [hb, hv] at hfold
      simp only [Option.some.inj hfold, Option.getD_map]
    | none => simp [hb, hv] at hfold
  | none =>
    cases hv : kind.folded? with
    | some f' => simp [hb, hv] at hfold
    | none =>
      cases kind.unary? with
      | some f => exact map_eq f _
      | none => simp only [Option.getD_map]

/-- A node evaluates on buffers to the buffer of the value it evaluates to. -/
theorem evaluate_eq (kind : Kind) (literal : Value) (operands : Slots Value) :
    evaluate kind (ofValue literal) (ofSlots operands) =
      ofValue (ShaderGraph.evaluate kind literal operands) := by
  unfold evaluate ShaderGraph.evaluate
  rw [isMet_eq]
  split
  · cases hfamily : kind.family with
    | environment => exact zeroed_eq _
    | literal => rfl
    | sink =>
      simp only [at?_ofSlots]
      exact sinkValue_eq kind _
    | arithmetic => exact applied_eq kind operands
    | operator => exact applied_eq kind operands
  · exact empty_eq

end Buffer

end ShaderGraph
