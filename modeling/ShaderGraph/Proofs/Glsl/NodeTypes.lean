import ShaderGraph.Proofs.Glsl.Templates

namespace ShaderGraph

namespace Kind

/-- Whether the code of a kind is well typed over operands of these shapes, given that the node has
a value. The first operand of a maximum, a minimum or a power sets the type of the others. -/
def takes (k : Kind) (shapes : Slots Shape) : Bool :=
  match k with
  | .vertexColor | .add | .subtract | .multiply | .divide | .append | .negate | .reciprocal
  | .oneMinus | .cross | .transpose | .matrixMultiply => true
  | .max | .min | .power =>
    match shapes.filled with
    | [] | [_] => true
    | s :: others => s ≠ .mat4 && others.all fun t => t = s || t = .scalar
  | .desaturate =>
    shapes.at? 0 ∈ [some .vec3, some .vec4] && shapes.at? 1 ∈ [some .scalar, some .vec3]
  | .textureSample => shapes.at? 2 ∈ [none, some .vec2]
  | _ => .mat4 ∉ shapes.filled

structure Operates (k : Kind) (n : Nat) : Prop where
  family : k.family = .operator
  folded : k.folded? = none
  unary : k.unary? = none
  requirement : k.requirement = .leading n

theorem operates_iff {k : Kind} {n : Nat} :
    k.Operates n ↔ k.family = .operator ∧ k.folded?.isNone ∧ k.unary?.isNone ∧
      k.requirement = .leading n := by
  rw [Option.isNone_iff_eq_none, Option.isNone_iff_eq_none]
  exact ⟨fun h => ⟨h.family, h.folded, h.unary, h.requirement⟩,
    fun h => ⟨h.1, h.2.1, h.2.2.1, h.2.2.2⟩⟩

theorem Operates.inputLimit_eq {k : Kind} {n : Nat} (h : k.Operates n) : k.inputLimit = n := by
  have hn := h.requirement
  cases k <;> first | cases hn; rfl | cases hn

/-- What there is between the literals and the stage outputs. -/
theorem between {k : Kind} (hl : k.isLiteral = false) (hs : k.isSink = false) :
    k.family = .environment ∨ k.folded?.isSome ∨ k.unary?.isSome ∨
      k ∈ [.vertexColor, .textureSample, .append] ∨ k.Operates 1 ∨ k.Operates 2 ∨ k.Operates 3 := by
  simp only [operates_iff]
  revert hl hs
  cases k <;> decide

end Kind

namespace Glsl

variable {c : Scope} {k : Kind} {id : NodeId} {literal : Value} {operands : Slots Operand}

def operandShapes (operands : Slots Operand) : Slots Shape :=
  operands.apply fun o => some o.value.shape

theorem at?_operandShapes (operands : Slots Operand) (i : Nat) :
    (operandShapes operands).at? i = (operands.at? i).map fun o => o.value.shape := by
  rw [operandShapes, Slots.at?_apply]
  cases operands.at? i <;> rfl

theorem filled_operandShapes (operands : Slots Operand) :
    (operandShapes operands).filled = operands.filled.map fun o => o.value.shape := by
  rw [operandShapes, Slots.filled_apply, List.filterMap_eq_map']

theorem at?_operandValues (operands : Slots Operand) (i : Nat) :
    (operandValues operands).at? i = (operands.at? i).map Operand.value := by
  rw [operandValues, Slots.at?_apply]
  cases operands.at? i <;> rfl

theorem operate_of_operates {n : Nat} (hk : k.Operates n)
    (hv : (evaluate k literal (operandValues operands)).isEmpty = false) :
    operate k (operandValues operands) = some (evaluate k literal (operandValues operands)) :=
  operate_of_family hk.family hk.folded hk.unary hv

/-- The expression of a node has the type of `v`, unless the kind does not take the operands. -/
def TypedAs (c : Scope) (k : Kind) (id : NodeId) (operands : Slots Operand) (v : Value) : Prop :=
  (expression c.dialect c.stage k id operands).type? c =
    if k.takes (operandShapes operands) then some (.value v.shape) else none

/-- Kinds whose first operand sets the type of the others. -/
theorem takes_iff_first (hk : k ∈ [.max, .min, .power]) {o : Operand} {os : List Operand}
    (hfilled : operands.filled = o :: os) :
    k.takes (operandShapes operands) = true ↔ os = [] ∨ o.value.shape ≠ .mat4 ∧
      ∀ p ∈ os, p.value.shape = o.value.shape ∨ p.value.shape = .scalar := by
  simp only [List.mem_cons, List.not_mem_nil, or_false] at hk
  rcases hk with rfl | rfl | rfl
  all_goals
    simp only [Kind.takes, filled_operandShapes, hfilled, List.map_cons]
    cases os <;> simp

theorem extremum_type {f : Func} (hk : k = .max ∧ f = .max ∨ k = .min ∧ f = .min)
    (ho : ∀ o ∈ operands.filled, o.Typed c) {g : Scalar → Scalar → Scalar} {v : Value}
    (hv : foldValues (Value.zip g) (operands.filled.map Operand.value) = some v) :
    TypedAs c k id operands v := by
  have hf : f = .max ∨ f = .min := hk.imp And.right And.right
  have hexpr : expression c.dialect c.stage k id operands =
      nested f (operands.filled.map Operand.expr) := by
    rcases hk with ⟨rfl, rfl⟩ | ⟨rfl, rfl⟩ <;> rfl
  unfold TypedAs
  rw [hexpr]
  cases hfilled : operands.filled with
  | nil =>
    rw [hfilled] at hv
    cases hv
  | cons o os =>
    rw [hfilled] at hv ho
    have hfirst := ho o (by simp)
    have htakes := takes_iff_first (k := k) (by rcases hk with ⟨rfl, -⟩ | ⟨rfl, -⟩ <;> simp) hfilled
    rw [List.map_cons, nested, foldl_extremum hf hfirst.nonempty hfirst.expr
      fun p hp => ho p (by simp [hp])]
    split
    · rename_i hall
      have hshape : v.shape = o.value.shape := by
        rcases hall with rfl | ⟨_, hall⟩
        · cases hv
          rfl
        · exact shape_of_foldlM hall hv
      rw [if_pos (htakes.mpr hall), hshape]
    · rename_i hall
      rw [if_neg (mt htakes.mp hall)]

theorem folded_type (ho : ∀ o ∈ operands.filled, o.Typed c) {f : Value → Value → Option Value}
    (hf : k.folded? = some f) (hv : (evaluate k literal (operandValues operands)).isEmpty = false) :
    TypedAs c k id operands (evaluate k literal (operandValues operands)) := by
  have hfold := folded_of_evaluate hf hv
  rw [filled_operandValues] at hfold
  cases k <;> cases hf
  case multiply => exact Product.ofOperands_type ho hfold
  case max => exact extremum_type (.inl ⟨rfl, rfl⟩) ho hfold
  case min => exact extremum_type (.inr ⟨rfl, rfl⟩) ho hfold
  all_goals exact chain_type (by decide) ho hfold

theorem append_type (ho : ∀ o ∈ operands.filled, o.Typed c) {v : Value}
    (hempty : v.shape ≠ .empty)
    (hv : Value.concat (operands.filled.map Operand.value) = some v) :
    TypedAs c .append id operands v := by
  have htakes : Kind.append.takes (operandShapes operands) = true := rfl
  rw [TypedAs, if_pos htakes]
  simp only [Value.concat, length_components] at hv
  split at hv
  · cases hv
  rename_i hfour
  have hsize : v.shape.size = operands.filled.foldr (fun o n => o.size + n) 0 :=
    (Value.size_of_ofList? hv).trans (length_components _)
  simp only [expression]
  split
  · -- one operand alone is passed on as it is
    rename_i o hfilled
    rw [hfilled] at hv ho
    simp only [List.map_cons, List.map_nil, List.flatMap_cons, List.flatMap_nil,
      List.append_nil, Value.ofList?_components, Option.some_inj] at hv
    exact hv ▸ (ho o (by simp)).expr
  · rename_i hmany
    have hfit : ∀ o ∈ operands.filled, o.value.shape ≠ .empty ∧ o.size ≤ 4 := fun o hmem =>
      ⟨(ho o hmem).nonempty, (size_le_total hmem).trans (by omega)⟩
    have hnil : operands.filled ≠ [] := by
      intro hnil
      rw [hnil] at hsize
      exact hempty (Shape.size_injective (t := .empty) hsize)
    have htwo : 2 ≤ operands.filled.foldr (fun o n => o.size + n) 0 :=
      two_le_total (fun o hmem => Value.size_pos (ho o hmem).not_isEmpty) hnil hmany
    have hvector : v.shape ∈ [.vec2, .vec3, .vec4] := by
      rw [← hsize] at hfour htwo
      revert hfour htwo
      cases v.shape <;> decide
    rw [Expr.type?, types?_map fun o hmem => (ho o hmem).expr, Option.bind_some, ← hsize]
    exact type?_vector hvector (hsize ▸ components?_operands hfit)

theorem filled_one {a : Operand} (ha : operands.at? 0 = some a)
    (hrest : ∀ i, 1 ≤ i → operands.at? i = none) : operands.filled = [a] := by
  rw [Slots.filled_eq]
  simp [List.range_succ, ha, hrest]

theorem unary_type (ho : ∀ o ∈ operands.filled, o.Typed c) {f : Scalar → Scalar}
    (hf : k.unary? = some f) (hlimit : ∀ i, k.inputLimit ≤ i → operands.at? i = none)
    (hv : (evaluate k literal (operandValues operands)).isEmpty = false) :
    TypedAs c k id operands (evaluate k literal (operandValues operands)) := by
  obtain ⟨x, hx, hne, he⟩ := unary_of_evaluate hf hv
  obtain ⟨a, ha, rfl, hta⟩ := operand_of_value ho hx
  have hone : k.inputLimit = 1 := by cases k <;> first | rfl | cases hf
  have hfilled := filled_one ha (hone ▸ hlimit)
  have htype := hta.expr
  have hshape : (a.value.map f).shape = a.value.shape := rfl
  have hshapes : (operandShapes operands).filled = [a.value.shape] := by
    rw [filled_operandShapes, hfilled]
    rfl
  have hempty := hta.nonempty
  rw [he]
  unfold TypedAs
  rw [hshape]
  generalize a.value.shape = s at htype hempty hshapes ⊢
  cases k <;> cases hf <;>
    simp only [expression, ha, Option.map_some, Option.getD_some, Kind.takes, hshapes]
  case trunc => exact (trunc_type htype hempty).trans (by cases s <;> rfl)
  case round => exact (round_type htype hempty rfl).trans (by cases s <;> rfl)
  case saturate =>
    rw [type?_call3, htype]
    cases s <;> first | rfl | exact absurd rfl hempty
  case negate =>
    rw [type?_binary .mul (a := a.expr) (Nat.zero_le _) (by decide), htype]
    cases s <;> rfl
  case reciprocal =>
    rw [type?_binary .div (b := a.expr) (by decide) Nat.zero_lt_one, htype]
    cases s <;> rfl
  case oneMinus =>
    rw [type?_binary .sub (b := a.expr) (by decide) Nat.zero_lt_two, htype]
    cases s <;> rfl
  all_goals exact (type?_componentwise rfl htype hempty).trans (by cases s <;> rfl)

theorem single_type (ho : ∀ o ∈ operands.filled, o.Typed c) (hk : k.Operates 1)
    (hlimit : ∀ i, k.inputLimit ≤ i → operands.at? i = none)
    (hv : (evaluate k literal (operandValues operands)).isEmpty = false) :
    TypedAs c k id operands (evaluate k literal (operandValues operands)) := by
  obtain ⟨a, ha, hx, hta⟩ := operand_of_requirement ho hv hk.requirement Nat.zero_lt_one
  have hop := operate_of_operates hk hv
  generalize evaluate k literal (operandValues operands) = v at hop ⊢
  have hshapes : (operandShapes operands).filled = [a.value.shape] := by
    rw [filled_operandShapes, filled_one ha (hk.inputLimit_eq ▸ hlimit)]
    rfl
  have htype := hta.expr
  have hempty := hta.nonempty
  obtain ⟨hk, hf, hu, hn⟩ := hk
  unfold TypedAs
  cases k <;> cases hk <;> cases hf <;> cases hu <;> cases hn
  all_goals
    simp only [operate, hx, Option.getD_some, Option.some_inj] at hop
    simp only [expression, ha, Option.map_some, Option.getD_some, Kind.takes, hshapes]
  case normalize =>
    rw [← hop, Value.shape_normalize, type?_componentwise rfl htype hempty]
    cases a.value.shape <;> rfl
  case length =>
    rw [← hop, type?_call1, htype]
    generalize a.value.shape = s at hempty
    cases s <;> first | rfl | exact absurd rfl hempty
  case transpose =>
    obtain ⟨hs, hop⟩ := Option.ite_none_right_eq_some.mp hop
    cases hop
    rw [Value.size_eq_sixteen.mp hs] at htype
    exact transpose_type htype rfl

theorem filled_two {a b : Operand} (ha : operands.at? 0 = some a) (hb : operands.at? 1 = some b)
    (hrest : ∀ i, 2 ≤ i → operands.at? i = none) : operands.filled = [a, b] := by
  rw [Slots.filled_eq]
  simp [List.range_succ, ha, hb, hrest]

/-- Two operands of one size have one shape. -/
theorem of_paired {a b : Value} {x : Option Value} {v : Value}
    (h : (if a.size = b.size then x else none) = some v) : a.shape = b.shape ∧ x = some v := by
  obtain ⟨hs, h⟩ := Option.ite_none_right_eq_some.mp h
  exact ⟨Shape.size_injective hs, h⟩

structure Pair (c : Scope) (operands : Slots Operand) (a b : Operand) : Prop where
  first : operands.at? 0 = some a
  second : operands.at? 1 = some b
  filled : operands.filled = [a, b]
  first_typed : a.Typed c
  second_typed : b.Typed c

namespace Pair

variable {a b : Operand} {v : Value}

theorem value_first (h : Pair c operands a b) : (operandValues operands).at? 0 = some a.value := by
  rw [at?_operandValues, h.first]
  rfl

theorem value_second (h : Pair c operands a b) :
    (operandValues operands).at? 1 = some b.value := by
  rw [at?_operandValues, h.second]
  rfl

theorem shapes (h : Pair c operands a b) :
    (operandShapes operands).filled = [a.value.shape, b.value.shape] := by
  rw [filled_operandShapes, h.filled]
  rfl

/-- Kinds that take two vectors of three, or two matrices, and nothing else. -/
theorem exact_type (h : Pair c operands a b) (hk : k = .cross ∨ k = .matrixMultiply)
    (hv : operate k (operandValues operands) = some v) : TypedAs c k id operands v := by
  have htype := h.first_typed.expr
  have htype' := h.second_typed.expr
  unfold TypedAs
  rcases hk with rfl | rfl
  all_goals
    simp only [operate, h.value_first, h.value_second, Option.getD_some] at hv
    simp only [expression, h.first, h.second, Option.map_some, Option.getD_some, Kind.takes]
    obtain ⟨hs, hv⟩ := Option.ite_none_right_eq_some.mp hv
    cases hv
  · rw [type?_call2, htype, htype', Shape.size_injective (t := .vec3) hs.1,
      Shape.size_injective (t := .vec3) hs.2]
    rfl
  · rw [type?_binary .mul (a := a.expr) (b := b.expr) (Nat.zero_le _) Nat.zero_lt_one, htype,
      htype', Value.size_eq_sixteen.mp hs.1, Value.size_eq_sixteen.mp hs.2]
    rfl

/-- Kinds that take two vectors of one size. -/
theorem equal_type (h : Pair c operands a b)
    (hk : k ∈ [.dot, .distance, .project, .reject, .halfDirection])
    (hv : operate k (operandValues operands) = some v) : TypedAs c k id operands v := by
  have hempty := h.second_typed.nonempty
  have htype := h.first_typed.expr
  have htype' := h.second_typed.expr
  unfold TypedAs
  simp only [List.mem_cons, List.not_mem_nil, or_false] at hk
  rcases hk with rfl | rfl | rfl | rfl | rfl
  all_goals
    simp only [operate, h.value_first, h.value_second, Option.getD_some] at hv
    simp only [expression, h.first, h.second, Option.map_some, Option.getD_some, Kind.takes,
      h.shapes]
    obtain ⟨hsame, hv⟩ := of_paired hv
    rw [hsame] at htype ⊢
  · cases hv
    rw [type?_measured (.inl rfl) htype htype' hempty]
    cases b.value.shape <;> rfl
  · obtain ⟨w, -, rfl⟩ := Option.map_eq_some_iff.mp hv
    rw [type?_measured (.inr rfl) htype htype' hempty]
    cases b.value.shape <;> rfl
  · cases hv
    rw [project_type htype htype' hempty rfl, Value.shape_project hsame]
    cases b.value.shape <;> rfl
  · have hjoin := Value.join?_of_zip hv
    rw [Value.shape_project hsame, hsame, Shape.join?, if_pos rfl, Option.some_inj] at hjoin
    rw [reject_type htype htype' hempty rfl rfl, ← hjoin]
    cases b.value.shape <;> rfl
  · obtain ⟨w, hw, rfl⟩ := Option.map_eq_some_iff.mp hv
    have hjoin := Value.join?_of_zip hw
    rw [Value.shape_normalize, Value.shape_normalize, hsame, Shape.join?, if_pos rfl,
      Option.some_inj] at hjoin
    rw [halfDirection_type htype htype' hempty, Value.shape_normalize, ← hjoin]
    cases b.value.shape <;> rfl

/-- Kinds that take a vector and a number to go with it. -/
theorem mixed_type (h : Pair c operands a b)
    (hk : k ∈ [.desaturate, .power, .posterize, .step])
    (hv : operate k (operandValues operands) = some v) : TypedAs c k id operands v := by
  have hempty := h.first_typed.nonempty
  have htype := h.first_typed.expr
  have htype' := h.second_typed.expr
  unfold TypedAs
  simp only [List.mem_cons, List.not_mem_nil, or_false] at hk
  rcases hk with rfl | rfl | rfl | rfl
  all_goals
    simp only [operate, h.value_first, h.value_second, Option.getD_some] at hv
    simp only [expression, h.first, h.second, Option.map_some, Option.getD_some, Kind.takes,
      h.shapes]
  · have hfour : a.size = 4 ↔ a.value.shape = .vec4 := Value.size_eq_four
    have hshape : v.shape = a.value.shape := by
      cases hv
      rfl
    simp only [hfour, at?_operandShapes, h.first, h.second, Option.map_some]
    refine (desaturate_type htype htype' rfl).trans ?_
    rw [hshape]
    cases a.value.shape <;> cases b.value.shape <;> rfl
  · refine (power_type htype hempty h.second_typed (Value.join?_of_zip hv)).trans ?_
    cases a.value.shape <;> cases b.value.shape <;> rfl
  · rw [posterize_type htype htype' hempty h.second_typed.nonempty (Value.join?_of_zip hv) rfl rfl]
    cases a.value.shape <;> cases b.value.shape <;> rfl
  · refine (step_type htype hempty h.second_typed (Value.join?_of_zip hv)).trans ?_
    cases a.value.shape <;> cases b.value.shape <;> rfl

end Pair

theorem pair_type (ho : ∀ o ∈ operands.filled, o.Typed c) (hk : k.Operates 2)
    (hlimit : ∀ i, k.inputLimit ≤ i → operands.at? i = none)
    (hv : (evaluate k literal (operandValues operands)).isEmpty = false) :
    TypedAs c k id operands (evaluate k literal (operandValues operands)) := by
  obtain ⟨a, ha, -, hta⟩ := operand_of_requirement ho hv hk.requirement Nat.zero_lt_two
  obtain ⟨b, hb, -, htb⟩ := operand_of_requirement ho hv hk.requirement Nat.one_lt_two
  have hpair : Pair c operands a b :=
    ⟨ha, hb, filled_two ha hb (hk.inputLimit_eq ▸ hlimit), hta, htb⟩
  have hop := operate_of_operates hk hv
  have hkinds : (k = .cross ∨ k = .matrixMultiply) ∨
      k ∈ [.dot, .distance, .project, .reject, .halfDirection] ∨
      k ∈ [.desaturate, .power, .posterize, .step] := by
    have hn := hk.requirement
    revert hn
    cases k <;> decide
  rcases hkinds with hk | hk | hk
  · exact hpair.exact_type hk hop
  · exact hpair.equal_type hk hop
  · exact hpair.mixed_type hk hop

theorem filled_three {a b e : Operand} (ha : operands.at? 0 = some a)
    (hb : operands.at? 1 = some b) (he : operands.at? 2 = some e)
    (hrest : ∀ i, 3 ≤ i → operands.at? i = none) : operands.filled = [a, b, e] := by
  rw [Slots.filled_eq]
  simp [List.range_succ, ha, hb, he, hrest]

theorem triple_type (ho : ∀ o ∈ operands.filled, o.Typed c) (hk : k.Operates 3)
    (hlimit : ∀ i, k.inputLimit ≤ i → operands.at? i = none)
    (hv : (evaluate k literal (operandValues operands)).isEmpty = false) :
    TypedAs c k id operands (evaluate k literal (operandValues operands)) := by
  obtain ⟨a, ha, hx, hta⟩ := operand_of_requirement ho hv hk.requirement (i := 0) (by omega)
  obtain ⟨b, hb, hy, htb⟩ := operand_of_requirement ho hv hk.requirement (i := 1) (by omega)
  obtain ⟨e, he, hz, hte⟩ := operand_of_requirement ho hv hk.requirement (i := 2) (by omega)
  have hop := operate_of_operates hk hv
  have hempty : (evaluate k literal (operandValues operands)).shape ≠ .empty := by
    simpa [Value.isEmpty] using hv
  generalize evaluate k literal (operandValues operands) = v at hop hempty ⊢
  have hfilled := filled_three ha hb he (hk.inputLimit_eq ▸ hlimit)
  have hexpr : ∃ f g, (f = .mix ∨ f = .smoothstep) ∧
      Value.zip3 g a.value b.value e.value = some v ∧
      expression c.dialect c.stage k id operands = .call f (operands.filled.map
        (Operand.widen · ((operands.filled.map Operand.size).max?.getD 1))) ∧
      k.takes (operandShapes operands) = decide (.mat4 ∉ (operandShapes operands).filled) := by
    obtain ⟨hk, -, -, hn⟩ := hk
    cases k <;> cases hk <;> cases hn
    all_goals simp only [operate, hx, hy, hz, Option.getD_some] at hop
    · exact ⟨.mix, _, .inl rfl, hop, rfl, rfl⟩
    · exact ⟨.smoothstep, _, .inr rfl, hop, rfl, rfl⟩
  obtain ⟨f, g, hf, hzip, hexpr, htakes⟩ := hexpr
  have hmax : ([a, b, e].map Operand.size).max?.getD 1 = v.shape.size := by
    rw [← Value.size_zip3 hzip, ← Nat.max_assoc]
    rfl
  obtain ⟨hfit, hwide⟩ := Value.shapes_of_zip3 hzip
  have hmat : .mat4 ∈ (operandShapes operands).filled ↔ v.shape = .mat4 := by
    have hshapes : (operandShapes operands).filled =
        [a.value, b.value, e.value].map Value.shape := by
      rw [filled_operandShapes, hfilled]
      rfl
    rw [hshapes, List.mem_map]
    constructor
    · rintro ⟨x, hx, hs⟩
      rcases hfit x hx with h | h
      · rw [hs] at h
        cases h
      · exact h ▸ hs
    · intro hs
      obtain ⟨x, hx, h⟩ := hwide
      exact ⟨x, hx, h.trans hs⟩
  unfold TypedAs
  rw [hexpr, htakes, hfilled, hmax, blended_type hf hta htb hte hempty hzip]
  simp [hmat]

theorem takes_vacant (hk : k.inputLimit = 0)
    (hlimit : ∀ i, k.inputLimit ≤ i → operands.at? i = none) :
    k.takes (operandShapes operands) = true := by
  have hshapes : (operandShapes operands).filled = [] := by
    rw [filled_operandShapes, Slots.filled_eq]
    simp [hlimit, hk]
  cases k <;> first | cases hk; done | simp [Kind.takes, hshapes]

theorem environment_type (hk : k.family = .environment)
    (hlimit : ∀ i, k.inputLimit ≤ i → operands.at? i = none) :
    TypedAs c k id operands (evaluate k literal (operandValues operands)) := by
  have hzero : k.inputLimit = 0 := by cases k <;> first | rfl | cases hk
  have htakes := takes_vacant hzero hlimit
  have hshape : (evaluate k literal (operandValues operands)).shape = k.naturalShape := by
    cases k <;> cases hk <;> rfl
  rw [TypedAs, if_pos htakes, hshape]
  cases k <;> cases hk
  case time => exact uniform_type (by intro s; cases s <;> rfl)
  case mvpMatrix => exact uniform_type (by intro s; cases s <;> rfl)
  case position => exact read_type .position
  case uv => exact read_type .uv
  case normal => exact normal_type
  case viewDirection => exact viewDirection_type
  case fresnel => exact fresnel_type

/-- A sample has all four channels when its coordinates are two numbers. -/
theorem sample_type (ho : ∀ o ∈ operands.filled, o.Typed c)
    (hunit : textureUnit ((operands.at? 0).map Operand.value) ∈ c.samplers) :
    (sample c.dialect c.stage operands).type? c =
      if Kind.textureSample.takes (operandShapes operands) then some .vec4 else none := by
  have hsampler : (Expr.sampler (textureUnit ((operands.at? 0).map Operand.value))).type? c =
      some .sampler2D := if_pos hunit
  have hlookup : ∀ s, (c.dialect.texture).type? c.dialect [.sampler2D, .value s] =
      if s = .vec2 then some .vec4 else none := by
    intro s
    cases c.dialect <;> cases s <;> rfl
  have htakes : Kind.textureSample.takes (operandShapes operands) =
      decide ((operands.at? 2).map (fun o => o.value.shape) ∈ [none, some .vec2]) := by
    rw [← at?_operandShapes]
    rfl
  rw [htakes, sample, type?_call2, hsampler]
  cases hcoordinates : operands.at? 2 with
  | none =>
    have huv := read_type (c := c) .uv
    change ((Attribute.uv.read c.stage).type? c).bind _ = some Ty.vec4
    rw [huv]
    exact hlookup .vec2
  | some o =>
    have htype := (ho o (Slots.mem_filled.mpr ⟨2, hcoordinates⟩)).expr
    change (o.expr.type? c).bind _ =
      if decide (some o.value.shape ∈ [none, some .vec2]) then some Ty.vec4 else none
    rw [htype]
    refine (hlookup o.value.shape).trans ?_
    cases o.value.shape <;> rfl

theorem textureSample_type (ho : ∀ o ∈ operands.filled, o.Typed c)
    (hunit : textureUnit ((operands.at? 0).map Operand.value) ∈ c.samplers) {v : Value}
    (hv : operate .textureSample (operandValues operands) = some v) :
    TypedAs c .textureSample id operands v := by
  have hsample := sample_type ho hunit
  have hshape : (Channel.ofInput ((operands.at? 1).map Operand.value)).shape = v.shape := by
    rw [← at?_operandValues]
    cases hv
    rfl
  unfold TypedAs
  split
  · rename_i htakes
    rw [if_pos htakes] at hsample
    rw [← hshape]
    exact select_type hsample rfl _
  · rename_i htakes
    rw [if_neg htakes] at hsample
    exact select_none hsample _

theorem vertexColor_type {v : Value}
    (hv : operate .vertexColor (operandValues operands) = some v) :
    TypedAs c .vertexColor id operands v := by
  have hshape : (Channel.ofInput ((operands.at? 0).map Operand.value)).shape = v.shape := by
    rw [← at?_operandValues]
    cases hv
    rfl
  have htakes : Kind.vertexColor.takes (operandShapes operands) = true := rfl
  rw [TypedAs, if_pos htakes, ← hshape]
  exact select_type (read_type .color) (rank_read .color c.stage) _

/-- The expression of a node has the type of its value, unless the kind does not take the operands.
-/
theorem expression_type (ho : ∀ o ∈ operands.filled, o.Typed c) (hl : k.isLiteral = false)
    (hs : k.isSink = false) (hlimit : ∀ i, k.inputLimit ≤ i → operands.at? i = none)
    (hunit : k = .textureSample →
      textureUnit ((operands.at? 0).map Operand.value) ∈ c.samplers)
    (hv : (evaluate k literal (operandValues operands)).isEmpty = false) (id : NodeId) :
    TypedAs c k id operands (evaluate k literal (operandValues operands)) := by
  have hempty : (evaluate k literal (operandValues operands)).shape ≠ .empty := by
    simpa [Value.isEmpty] using hv
  rcases Kind.between hl hs with hk | hf | hu | hk | hk | hk | hk
  · exact environment_type hk hlimit
  · obtain ⟨f, hf⟩ := Option.isSome_iff_exists.mp hf
    exact folded_type ho hf hv
  · obtain ⟨f, hu⟩ := Option.isSome_iff_exists.mp hu
    exact unary_type ho hu hlimit hv
  · simp only [List.mem_cons, List.not_mem_nil, or_false] at hk
    rcases hk with rfl | rfl | rfl
    · exact vertexColor_type (operate_of_family rfl rfl rfl hv)
    · exact textureSample_type ho (hunit rfl) (operate_of_family rfl rfl rfl hv)
    · have hconcat := operate_of_family rfl rfl rfl hv
      simp only [operate, filled_operandValues] at hconcat
      exact append_type ho hempty hconcat
  · exact single_type ho hk hlimit hv
  · exact pair_type ho hk hlimit hv
  · exact triple_type ho hk hlimit hv

end Glsl

end ShaderGraph
