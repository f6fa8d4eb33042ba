import ShaderGraph.Glsl.Compile
import ShaderGraph.Proofs.Glsl.Meaning
import ShaderGraph.Proofs.Inputs

namespace ShaderGraph

namespace Kind

/-- Whether the code of a node is an expression over its operands, each of them taken whole. -/
def isPure : Kind → Bool
  | add | subtract | multiply | divide | max | min | append
  | abs | cos | sin | tan | radians | degrees | negate | reciprocal | sqrt | trunc | round | ceil
  | floor | fract | saturate | exp2 | oneMinus
  | normalize | length | dot | distance | cross | halfDirection | power | lerp | smoothstep
  | transpose | matrixMultiply => true
  | _ => false

end Kind

section

variable {k : Kind} {literal : Value} {operands : Slots Value}

theorem isMet_leading {n : Nat} (h : (Requirement.leading n).isMet operands = true) {i : Nat}
    (hi : i < n) : ∃ x, operands.at? i = some x ∧ x.isEmpty = false := by
  have hany := List.all_eq_true.mp h i (List.mem_range.mpr hi)
  obtain ⟨x, hx, hne⟩ := (Option.any_eq_true _ _).mp hany
  exact ⟨x, hx, by simpa using hne⟩

theorem isMet_of_evaluate (h : (evaluate k literal operands).isEmpty = false) :
    k.requirement.isMet operands = true := by
  by_contra hn
  rw [evaluate, if_neg hn] at h
  cases h

theorem getD_of_not_isEmpty {o : Option Value} (h : (o.getD .empty).isEmpty = false) :
    o = some (o.getD .empty) := by
  cases o with
  | none => cases h
  | some v => rfl

theorem folded_of_evaluate {f : Value → Value → Option Value} (hf : k.folded? = some f)
    (h : (evaluate k literal operands).isEmpty = false) :
    foldValues f operands.filled = some (evaluate k literal operands) := by
  have he : evaluate k literal operands = (foldValues f operands.filled).getD .empty := by
    rw [evaluate, if_pos (isMet_of_evaluate h)]
    cases k <;> cases hf <;> rfl
  rw [he] at h ⊢
  exact getD_of_not_isEmpty h

theorem unary_of_evaluate {f : Scalar → Scalar} (hf : k.unary? = some f)
    (h : (evaluate k literal operands).isEmpty = false) :
    ∃ x, operands.at? 0 = some x ∧ x.isEmpty = false ∧ evaluate k literal operands = x.map f := by
  have hmet := isMet_of_evaluate h
  have hneeds : k.requirement = .leading 1 := by cases k <;> first | rfl | cases hf
  rw [hneeds] at hmet
  obtain ⟨x, hx, hne⟩ := isMet_leading hmet (Nat.zero_lt_one)
  refine ⟨x, hx, hne, ?_⟩
  have he : evaluate k literal operands = ((operands.at? 0).getD .empty).map f := by
    rw [evaluate, if_pos (isMet_of_evaluate h)]
    cases k <;> cases hf <;> rfl
  rw [he, hx]
  rfl

theorem operate_of_family (hk : k.family = .operator) (hf : k.folded? = none)
    (hu : k.unary? = none) (h : (evaluate k literal operands).isEmpty = false) :
    operate k operands = some (evaluate k literal operands) := by
  have he : evaluate k literal operands = (operate k operands).getD .empty := by
    rw [evaluate, if_pos (isMet_of_evaluate h), hk, hf, hu]
  rw [he] at h ⊢
  exact getD_of_not_isEmpty h

theorem operate_of_evaluate (hk : k.isPure = true) (hf : k.folded? = none) (hu : k.unary? = none)
    (h : (evaluate k literal operands).isEmpty = false) :
    operate k operands = some (evaluate k literal operands) := by
  have hfamily : k.family = .operator := by cases k <;> cases hk <;> first | rfl | cases hf
  exact operate_of_family hfamily hf hu h

end

namespace Value

theorem size_pos {v : Value} (h : v.isEmpty = false) : 1 ≤ v.size := by
  have hshape : v.shape ≠ .empty := by simpa [isEmpty] using h
  unfold size
  cases hs : v.shape <;> simp_all [Shape.size]

theorem tabulate_congr {s : Shape} {f g : Nat → Scalar} (h : ∀ i < s.size, f i = g i) :
    tabulate s f = tabulate s g :=
  ext' (List.map_congr_left fun i hi => h i (List.mem_range.mp hi))

theorem get_tabulate {s : Shape} (f : Nat → Scalar) {i : Nat} (hi : i < s.size) :
    (tabulate s f).get i = f i := by
  simp [get, tabulate, hi]

/-- A scalar has its component at every index. -/
theorem spread_eq_get {v : Value} {i : Nat} (hi : i < v.size) : v.spread i = v.get i := by
  rw [spread_eq]
  split
  · rw [show i = 0 by omega]
  · rfl

theorem map_eq_tabulate (f : Scalar → Scalar) (v : Value) :
    v.map f = tabulate v.shape fun i => f (v.spread i) := by
  apply ext'
  apply List.ext_getElem
  · simp [map, tabulate, v.length_eq]
  · intro i hi hi'
    have hlt : i < v.components.length := by simpa [map] using hi
    have hspread := spread_eq_get (v := v) (i := i) (by rwa [size, ← v.length_eq])
    simp [map, tabulate, hspread, get, hlt]

theorem zip_scalar_left (f : Scalar → Scalar → Scalar) (c : Scalar) (v : Value) :
    zip f (.scalar c) v = some (v.map (f c)) := by
  have hjoin : joinShape? (.scalar c) v = some v.shape := by
    unfold joinShape?
    split
    · rename_i hsize
      exact congrArg some (Shape.size_injective hsize)
    · rfl
  rw [zip, hjoin, map_eq_tabulate]
  rfl

theorem zip_scalar_right (f : Scalar → Scalar → Scalar) (v : Value) (c : Scalar) :
    zip f v (.scalar c) = some (v.map (f · c)) := by
  have hjoin : joinShape? v (.scalar c) = some v.shape := by
    unfold joinShape?
    split
    · rfl
    · rename_i hsize
      have hne : ¬v.size = 1 := hsize
      rw [if_neg hne]
      rfl
  rw [zip, hjoin, map_eq_tabulate]
  rfl

/-- Three operands whose largest has a shape. -/
theorem zip3_eq (f : Scalar → Scalar → Scalar → Scalar) {a b c : Value} {s : Shape}
    (hs : max a.size (max b.size c.size) = s.size) :
    zip3 f a b c =
      if (a.size = 1 ∨ a.size = s.size) ∧ (b.size = 1 ∨ b.size = s.size) ∧
          (c.size = 1 ∨ c.size = s.size) then
        some (tabulate s fun i => f (a.spread i) (b.spread i) (c.spread i))
      else none := by
  simp only [zip3, hs, Shape.ofSize?_size, Option.map_some, Bool.and_eq_true, Bool.or_eq_true,
    decide_eq_true_eq, and_assoc]

theorem zip3_scalars (f : Scalar → Scalar → Scalar → Scalar) {v : Value} (hv : v.isEmpty = false)
    (c d : Scalar) : zip3 f v (.scalar c) (.scalar d) = some (v.map (f · c d)) := by
  have hsize := size_pos hv
  have hone : ∀ x, (Value.scalar x).size = 1 := fun _ => rfl
  have hmax : max v.size (max (Value.scalar c).size (Value.scalar d).size) = v.shape.size := by
    rw [hone, hone, Nat.max_self, Nat.max_eq_left hsize]
    rfl
  rw [zip3_eq f hmax, if_pos ⟨.inr rfl, .inl rfl, .inl rfl⟩, map_eq_tabulate]
  rfl

theorem size_zip3 {f : Scalar → Scalar → Scalar → Scalar} {a b c v : Value}
    (h : zip3 f a b c = some v) : max a.size (max b.size c.size) = v.shape.size := by
  simp only [zip3] at h
  split at h
  · obtain ⟨s, hs, rfl⟩ := Option.map_eq_some_iff.mp h
    exact (Shape.size_of_ofSize? hs).symm
  · cases h

def fill (s : Shape) (v : Value) : Value :=
  if v.size = 1 ∧ 1 < s.size then tabulate s fun _ => v.get 0 else v

theorem size_fill (s : Shape) (v : Value) :
    (v.fill s).size = if v.size = 1 ∧ 1 < s.size then s.size else v.size := by
  unfold fill
  split <;> rfl

theorem spread_fill {s : Shape} (v : Value) {i : Nat} (hi : i < s.size) :
    (v.fill s).spread i = v.spread i := by
  unfold fill
  split
  · rename_i h
    rw [spread_eq_get hi, get_tabulate _ hi, spread_eq, if_pos h.1]
  · rfl

theorem zip_fill (f : Scalar → Scalar → Scalar) (a b : Value) :
    zip f a (b.fill a.shape) = zip f a b := by
  by_cases h : b.size = 1 ∧ 1 < a.shape.size
  · have hsize : (b.fill a.shape).size = a.size := by
      rw [size_fill, if_pos h]
      rfl
    have hwide : 1 < a.size := h.2
    have hjoin : joinShape? a b = some a.shape := by
      rw [joinShape?, if_neg (by omega), if_neg (by omega), if_pos h.1]
    rw [zip, joinShape?, if_pos hsize.symm, zip, hjoin]
    refine congrArg some (tabulate_congr fun i hi => ?_)
    rw [spread_fill b hi]
  · rw [fill, if_neg h]

theorem zip3_fill (f : Scalar → Scalar → Scalar → Scalar) {a b c : Value} {s : Shape}
    (hs : max a.size (max b.size c.size) = s.size) :
    zip3 f (a.fill s) (b.fill s) (c.fill s) = zip3 f a b c := by
  have hfit : ∀ v : Value, ((v.fill s).size = 1 ∨ (v.fill s).size = s.size) ↔
      (v.size = 1 ∨ v.size = s.size) := by
    intro v
    rw [size_fill]
    split <;> omega
  have hmax : max (a.fill s).size (max (b.fill s).size (c.fill s).size) = s.size := by
    simp only [size_fill]
    split <;> split <;> split <;> omega
  rw [zip3_eq f hmax, zip3_eq f hs]
  simp only [hfit]
  congr 2
  exact tabulate_congr fun i hi => by rw [spread_fill a hi, spread_fill b hi, spread_fill c hi]

end Value

namespace Glsl

variable {env : Env}

/-- An expression that is read back as it was built, and then has the value `v`. -/
structure Expr.Gives (env : Env) (e : Expr) (v : Value) : Prop where
  grouped : e.Grouped
  value : e.tree.value? env = some v

section

variable {a b c : Expr} {x y z v : Value} {f : Func} {op : Op}

theorem gives_number {x : Scalar} (hx : x.isFinite = true) :
    (Expr.number x).Gives env (.scalar x) :=
  ⟨hx, value?_number hx⟩

theorem gives_zero : Expr.zero.Gives env (.scalar .zero) := gives_number (by decide)

theorem gives_one : Expr.one.Gives env (.scalar .one) := gives_number (by decide)

theorem Expr.Gives.bracket (h : a.Gives env v) : (Expr.bracket a).Gives env v :=
  ⟨h.grouped, h.value⟩

theorem Expr.Gives.binary (ha : a.Gives env x) (hb : b.Gives env y) (hra : a.rank ≤ op.rank)
    (hrb : b.rank < op.rank) (hv : op.result? x y = some v) :
    (Expr.binary op a b).Gives env v := by
  refine ⟨⟨ha.grouped, hb.grouped, hra, hrb⟩, ?_⟩
  simp [Expr.tree, Tree.value?, ha.value, hb.value, hv]

theorem gives_call {args : List Expr} {vs : List Value} (hne : args ≠ [])
    (hargs : List.Forall₂ (Expr.Gives env) args vs) (hv : f.result? vs = some v) :
    (Expr.call f args).Gives env v := by
  have hall : Expr.AllGrouped args ∧ Tree.values? env (Expr.trees args) = some vs := by
    clear hne hv
    induction hargs with
    | nil => exact ⟨trivial, rfl⟩
    | cons h _ ih =>
      refine ⟨⟨h.grouped, ih.1⟩, ?_⟩
      simp [Expr.trees, Tree.values?, h.value, ih.2]
  refine ⟨⟨hne, hall.1⟩, ?_⟩
  simp [Expr.tree, Tree.value?, hall.2, hv]

theorem Expr.Gives.call1 (ha : a.Gives env x) (hv : f.result? [x] = some v) :
    (Expr.call1 f a).Gives env v :=
  gives_call (by simp) (.cons ha .nil) hv

theorem Expr.Gives.call2 (ha : a.Gives env x) (hb : b.Gives env y)
    (hv : f.result? [x, y] = some v) :
    (Expr.call2 f a b).Gives env v :=
  gives_call (by simp) (.cons ha (.cons hb .nil)) hv

theorem Expr.Gives.call3 (ha : a.Gives env x) (hb : b.Gives env y) (hc : c.Gives env z)
    (hv : f.result? [x, y, z] = some v) : (Expr.call f [a, b, c]).Gives env v :=
  gives_call (by simp) (.cons ha (.cons hb (.cons hc .nil))) hv

end

namespace Operand

def Bound (env : Env) (o : Operand) : Prop :=
  env.lookup (nodeName o.id).toList = some o.value

variable {o : Operand}

theorem Bound.expr (h : o.Bound env) : o.expr.Gives env o.value := ⟨trivial, h⟩

theorem Bound.widen (h : o.Bound env) (s : Shape) :
    (o.widen s.size).Gives env (o.value.fill s) := by
  have hsize : o.size = o.value.size := rfl
  by_cases hs : o.value.size = 1 ∧ 1 < s.size
  · have hfill : Value.ofList? (List.replicate s.size (o.value.get 0)) = some (o.value.fill s) := by
      rw [← Value.ofList?_components (o.value.fill s), Value.fill, if_pos hs]
      simp [Value.tabulate]
    rw [Operand.widen, hsize, if_pos hs]
    refine h.expr.call1 ?_
    rw [Func.result?, vector?, if_pos hs.1, hfill]
  · rw [Operand.widen, hsize, if_neg hs, Value.fill, if_neg hs]
    exact h.expr

end Operand

/-- If one operand more keeps what a construction shows in step with the values, so do several. -/
theorem foldl_shows {σ : Type} (Shows : σ → Value → Prop) (P : Operand → Prop)
    {step : σ → Operand → σ} {f : Value → Value → Option Value}
    (hstep : ∀ e x o y, Shows e x → P o → f x o.value = some y → Shows (step e o) y)
    {operands : List Operand} (ho : ∀ o ∈ operands, P o) {e : σ} {x v : Value}
    (he : Shows e x) (hv : (operands.map Operand.value).foldlM f x = some v) :
    Shows (operands.foldl step e) v := by
  induction operands generalizing e x with
  | nil =>
    cases hv
    exact he
  | cons o operands ih =>
    simp only [List.map_cons, List.foldlM_cons, Option.bind_eq_bind] at hv
    obtain ⟨y, hy, hv⟩ := Option.bind_eq_some_iff.mp hv
    exact ih (fun o ho' => ho o (by simp [ho'])) (hstep e x o y he (ho o (by simp)) hy) hv

section

variable {operands : List Operand} {v : Value}

theorem chain_gives {op : Op} (ho : ∀ o ∈ operands, o.Bound env)
    (hv : foldValues op.result? (operands.map Operand.value) = some v) :
    (Expr.chain op (operands.map Operand.expr)).Gives env v := by
  cases operands with
  | nil => cases hv
  | cons o operands =>
    have hpos : 0 < op.rank := by cases op <;> decide
    rw [List.map_cons, Expr.chain, List.foldl_map]
    exact (foldl_shows (fun (e : Expr) x => e.Gives env x ∧ e.rank ≤ op.rank) (Operand.Bound env)
      (fun e x p y he hp hy => ⟨he.1.binary hp.expr he.2 hpos hy, le_refl op.rank⟩)
      (fun p hp => ho p (by simp [hp])) ⟨(ho o (by simp)).expr, Nat.zero_le _⟩ hv).1

theorem nested_gives {f : Func} (ho : ∀ o ∈ operands, o.Bound env)
    (hv : foldValues (fun x y => f.result? [x, y]) (operands.map Operand.value) = some v) :
    (nested f (operands.map Operand.expr)).Gives env v := by
  cases operands with
  | nil => cases hv
  | cons o operands =>
    rw [List.map_cons, nested, List.foldl_map]
    exact foldl_shows (Expr.Gives env) (Operand.Bound env)
      (fun e x p y he hp hy => he.call2 hp.expr hy) (fun p hp => ho p (by simp [hp]))
      (ho o (by simp)).expr hv

end

theorem product_eq_multiply {x y : Value} (h : ¬(x.shape = .vec4 ∧ y.shape = .mat4)) :
    product x y = x.multiply y := by
  rw [product, Value.multiply_eq]
  cases hx : x.shape <;> cases hy : y.shape <;> simp_all

theorem product_swap {x y : Value} (hx : x.shape = .vec4) (hy : y.shape = .mat4) :
    product y x = x.multiply y := by
  simp [product, Value.multiply_eq, hx, hy]

theorem product_scalar (x : Value) (c : Scalar) :
    product x (.scalar c) = Value.zip (· * ·) x (.scalar c) := by
  unfold product
  cases hx : x.shape <;> rfl

theorem size_zip {f : Scalar → Scalar → Scalar} {x y v : Value} (h : Value.zip f x y = some v) :
    v.size = if x.size = 1 then y.size else x.size := by
  obtain ⟨s, hs, rfl⟩ := Option.map_eq_some_iff.mp h
  change s.size = _
  unfold Value.joinShape? at hs
  split at hs
  · cases hs
    split <;> simp_all [Value.size]
  · split at hs
    · simp_all [Value.size]
    · split at hs
      · simp_all [Value.size]
      · cases hs

theorem size_multiply {x y v : Value} (h : x.multiply y = some v) :
    v.size = if (x.size = 16 ∧ y.size = 4) ∨ (x.size = 4 ∧ y.size = 16) then 4
      else if x.size = 1 then y.size else x.size := by
  simp only [Value.size_eq_four, Value.size_eq_sixteen]
  rw [Value.multiply_eq] at h
  split at h
  · rename_i hs
    cases h
    rw [if_pos (.inl hs)]
    rfl
  · split at h
    · rename_i hs
      cases h
      rw [if_pos (.inr hs)]
      rfl
    · split at h
      · rename_i hs
        cases h
        simp [hs.1, hs.2, Value.size, Value.matMul]
      · rename_i h₁ h₂ _
        rw [if_neg (not_or.mpr ⟨h₁, h₂⟩), size_zip h]

namespace Product

structure Holds (env : Env) (p : Product) (x : Value) : Prop where
  gives : p.expr.Gives env x
  size : p.size = x.size
  simple : p.compound = false → p.expr.rank = 0

variable {p : Product} {o : Operand} {x y : Value}

theorem Holds.times (h : p.Holds env x) (ho : o.Bound env) (hy : x.multiply o.value = some y) :
    (p.times o).Holds env y := by
  have hleft : (if p.compound then Expr.bracket p.expr else p.expr).Gives env x ∧
      (if p.compound then Expr.bracket p.expr else p.expr).rank = 0 := by
    split
    · exact ⟨h.gives.bracket, rfl⟩
    · rename_i hc
      exact ⟨h.gives, h.simple (by simpa using hc)⟩
  obtain ⟨hgives, hrank⟩ := hleft
  have hside : (p.size = 4 ∧ o.size = 16) ↔ (x.shape = .vec4 ∧ o.value.shape = .mat4) := by
    rw [h.size]
    exact and_congr Value.size_eq_four Value.size_eq_sixteen
  refine ⟨?_, ?_, nofun⟩
  · simp only [Product.times, hside]
    split
    · rename_i hs
      exact ho.expr.binary hgives (Nat.zero_le _) (by rw [hrank]; decide)
        ((product_swap hs.1 hs.2).trans hy)
    · rename_i hs
      exact hgives.binary ho.expr (by rw [hrank]; decide) Nat.zero_lt_one
        ((product_eq_multiply hs).trans hy)
  · rw [size_multiply hy, ← h.size]
    rfl

theorem ofOperands_gives {operands : List Operand} {v : Value} (ho : ∀ o ∈ operands, o.Bound env)
    (hv : foldValues Value.multiply (operands.map Operand.value) = some v) :
    (ofOperands operands).Gives env v := by
  cases operands with
  | nil => cases hv
  | cons o operands =>
    exact (foldl_shows (Holds env) (Operand.Bound env)
      (fun p x o y hp ho hy => hp.times ho hy) (fun p hp => ho p (by simp [hp]))
      ⟨(ho o (by simp)).expr, rfl, fun _ => rfl⟩ hv).gives

end Product

def operandValues (operands : Slots Operand) : Slots Value := operands.apply fun o => some o.value

theorem filled_operandValues (operands : Slots Operand) :
    (operandValues operands).filled = operands.filled.map Operand.value := by
  rw [operandValues, Slots.filled_apply, List.filterMap_eq_map']

section

variable {k : Kind} {s : Stage} {id : NodeId} {literal : Value} {operands : Slots Operand}
  {P : Operand → Prop}

theorem operand_of_value (hb : ∀ o ∈ operands.filled, P o) {i : Nat} {x : Value}
    (hx : (operandValues operands).at? i = some x) :
    ∃ o, operands.at? i = some o ∧ o.value = x ∧ P o := by
  rw [operandValues, Slots.at?_apply] at hx
  obtain ⟨o, ho, he⟩ := Option.bind_eq_some_iff.mp hx
  cases he
  exact ⟨o, ho, rfl, hb o (Slots.mem_filled.mpr ⟨i, ho⟩)⟩

/-- A node with a value has the operands it needs. -/
theorem operand_of_requirement (hb : ∀ o ∈ operands.filled, P o)
    (hv : (evaluate k literal (operandValues operands)).isEmpty = false) {n : Nat}
    (hn : k.requirement = .leading n) {i : Nat} (hi : i < n) :
    ∃ o, operands.at? i = some o ∧ (operandValues operands).at? i = some o.value ∧ P o := by
  have hmet := isMet_of_evaluate hv
  rw [hn] at hmet
  obtain ⟨x, hx, -⟩ := isMet_leading hmet hi
  obtain ⟨o, ho, rfl, hbound⟩ := operand_of_value hb hx
  exact ⟨o, ho, hx, hbound⟩

theorem folded_gives (hb : ∀ o ∈ operands.filled, o.Bound env)
    {f : Value → Value → Option Value} (hf : k.folded? = some f)
    (hv : (evaluate k literal (operandValues operands)).isEmpty = false) :
    (expression .glsl330 s k id operands).Gives env
      (evaluate k literal (operandValues operands)) := by
  have hfold := folded_of_evaluate hf hv
  rw [filled_operandValues] at hfold
  cases k <;> cases hf
  case multiply => exact Product.ofOperands_gives hb hfold
  case max => exact nested_gives hb hfold
  case min => exact nested_gives hb hfold
  all_goals exact chain_gives hb hfold

theorem unary_gives (hb : ∀ o ∈ operands.filled, o.Bound env)
    {f : Scalar → Scalar} (hf : k.unary? = some f)
    (hv : (evaluate k literal (operandValues operands)).isEmpty = false) :
    (expression .glsl330 s k id operands).Gives env
      (evaluate k literal (operandValues operands)) := by
  obtain ⟨x, hx, hne, he⟩ := unary_of_evaluate hf hv
  obtain ⟨o, ho, rfl, hbound⟩ := operand_of_value hb hx
  have hgives := hbound.expr
  rw [he]
  cases k <;> cases hf <;> simp only [expression, ho, Option.map_some, Option.getD_some]
  case negate =>
    refine hgives.binary (gives_number (by decide)) (Nat.zero_le _) (by decide) ?_
    rw [Op.result?, product_scalar, Value.zip_scalar_right]
    simp only [Scalar.mul_neg_one]
  case reciprocal =>
    exact gives_one.binary hgives (by decide) Nat.zero_lt_one (Value.zip_scalar_left _ _ _)
  case oneMinus =>
    exact gives_one.binary hgives (by decide) Nat.zero_lt_two (Value.zip_scalar_left _ _ _)
  case saturate => exact hgives.call3 gives_zero gives_one (Value.zip3_scalars _ hne _ _)
  all_goals exact hgives.call1 rfl

theorem vector?_several {n : Nat} {vs : List Value} (h : ∀ v, vs ≠ [v]) :
    vector? n vs = assemble? n vs := by
  unfold vector?
  split
  · exact absurd rfl (h _)
  · rfl

theorem length_components (os : List Operand) :
    ((os.map Operand.value).flatMap Value.components).length =
      os.foldr (fun o n => o.size + n) 0 := by
  induction os with
  | nil => rfl
  | cons o os ih =>
    rw [List.map_cons, List.flatMap_cons, List.length_append, ih, o.value.length_eq]
    rfl

theorem assemble?_operands (os : List Operand) :
    assemble? (os.foldr (fun o n => o.size + n) 0) (os.map Operand.value) =
      Value.ofList? ((os.map Operand.value).flatMap Value.components) := by
  rw [assemble?, if_pos (length_components os)]

theorem append_gives (hb : ∀ o ∈ operands.filled, o.Bound env) (hne : operands.filled ≠ [])
    {v : Value} (hv : Value.concat (operands.filled.map Operand.value) = some v) :
    (expression .glsl330 s .append id operands).Gives env v := by
  simp only [Value.concat] at hv
  split at hv
  · cases hv
  · simp only [expression]
    split
    · -- one operand alone is passed on as it is
      rename_i o ho
      rw [ho] at hv hb
      simp only [List.map_cons, List.map_nil, List.flatMap_cons, List.flatMap_nil,
        List.append_nil, Value.ofList?_components, Option.some_inj] at hv
      exact hv ▸ (hb o (by simp)).expr
    · rename_i hmany
      have hseveral : ∀ w, operands.filled.map Operand.value ≠ [w] := by
        intro w hw
        obtain ⟨o, ho, -⟩ := List.map_eq_singleton_iff.mp hw
        exact hmany o ho
      have hargs : List.Forall₂ (Expr.Gives env) (operands.filled.map Operand.expr)
          (operands.filled.map Operand.value) := by
        rw [List.forall₂_map_left_iff, List.forall₂_map_right_iff, List.forall₂_same]
        exact fun o ho => (hb o ho).expr
      refine gives_call (by simpa using hne) hargs ?_
      rw [Func.result?, vector?_several hseveral, assemble?_operands, hv]

theorem single_gives (hb : ∀ o ∈ operands.filled, o.Bound env) (hk : k.isPure = true)
    (hf : k.folded? = none) (hu : k.unary? = none) (hn : k.requirement = .leading 1)
    (hv : (evaluate k literal (operandValues operands)).isEmpty = false) :
    (expression .glsl330 s k id operands).Gives env
      (evaluate k literal (operandValues operands)) := by
  obtain ⟨a, ha, hx, hbound⟩ := operand_of_requirement hb hv hn Nat.zero_lt_one
  have hgives := hbound.expr
  have hop := operate_of_evaluate hk hf hu hv
  generalize evaluate k literal (operandValues operands) = v at hop ⊢
  cases k <;> cases hk <;> cases hn <;> cases hu
  all_goals
    simp only [expression, ha, Option.map_some, Option.getD_some]
    simp only [operate, hx, Option.getD_some] at hop
  case transpose =>
    simp only [Value.size_eq_sixteen] at hop
    exact hgives.call1 hop
  all_goals exact hgives.call1 hop

theorem pair_gives (hb : ∀ o ∈ operands.filled, o.Bound env) (hk : k.isPure = true)
    (hf : k.folded? = none) (hu : k.unary? = none) (hn : k.requirement = .leading 2)
    (hv : (evaluate k literal (operandValues operands)).isEmpty = false) :
    (expression .glsl330 s k id operands).Gives env
      (evaluate k literal (operandValues operands)) := by
  obtain ⟨a, ha, hx, hbound⟩ := operand_of_requirement hb hv hn Nat.zero_lt_two
  obtain ⟨b, hb', hy, hbound'⟩ := operand_of_requirement hb hv hn Nat.one_lt_two
  have hop := operate_of_evaluate hk hf hu hv
  generalize evaluate k literal (operandValues operands) = v at hop ⊢
  cases k <;> cases hk <;> cases hn
  all_goals
    simp only [expression, ha, hb', Option.map_some, Option.getD_some]
    simp only [operate, hx, hy, Option.getD_some] at hop
  case halfDirection =>
    split at hop
    · obtain ⟨w, hw, rfl⟩ := Option.map_eq_some_iff.mp hop
      have hleft : (Expr.call1 .normalize a.expr).Gives env a.value.normalize :=
        hbound.expr.call1 rfl
      have hright : (Expr.call1 .normalize b.expr).Gives env b.value.normalize :=
        hbound'.expr.call1 rfl
      have hsum : (Expr.binary .add (.call1 .normalize a.expr) (.call1 .normalize b.expr)).Gives
          env w :=
        hleft.binary hright (Nat.zero_le _) Nat.zero_lt_two hw
      exact hsum.call1 rfl
    · cases hop
  case power =>
    exact hbound.expr.call2 (hbound'.widen a.value.shape) ((Value.zip_fill _ _ _).trans hop)
  case matrixMultiply =>
    refine hbound.expr.binary hbound'.expr (Nat.zero_le _) Nat.zero_lt_one ?_
    simp only [Value.size_eq_sixteen] at hop
    split at hop
    · rename_i hs
      simpa [Op.result?, product, hs.1, hs.2] using hop
    · cases hop
  all_goals exact hbound.expr.call2 hbound'.expr hop

theorem triple_gives (hb : ∀ o ∈ operands.filled, o.Bound env) (hk : k.isPure = true)
    (hf : k.folded? = none) (hu : k.unary? = none) (hn : k.requirement = .leading 3)
    (hlast : operands.at? 3 = none)
    (hv : (evaluate k literal (operandValues operands)).isEmpty = false) :
    (expression .glsl330 s k id operands).Gives env
      (evaluate k literal (operandValues operands)) := by
  obtain ⟨a, ha, hx, hbound⟩ := operand_of_requirement hb hv hn (i := 0) (by omega)
  obtain ⟨b, hb', hy, hbound'⟩ := operand_of_requirement hb hv hn (i := 1) (by omega)
  obtain ⟨c, hc, hz, hbound''⟩ := operand_of_requirement hb hv hn (i := 2) (by omega)
  have hfilled : operands.filled = [a, b, c] := by
    rw [Slots.filled_eq]
    simp [List.range_succ, ha, hb', hc, hlast]
  have hop := operate_of_evaluate hk hf hu hv
  generalize evaluate k literal (operandValues operands) = v at hop ⊢
  have hblend : ∀ (f : Func) (g : Scalar → Scalar → Scalar → Scalar),
      (∀ x y z, f.result? [x, y, z] = Value.zip3 g x y z) →
      Value.zip3 g a.value b.value c.value = some v →
      (Expr.call f (operands.filled.map
        (Operand.widen · ((operands.filled.map Operand.size).max?.getD 1)))).Gives env v := by
    intro f g hfg hzip
    have hsize := Value.size_zip3 hzip
    have hmax : ([a, b, c].map Operand.size).max?.getD 1 = v.shape.size := by
      rw [← hsize, ← Nat.max_assoc]
      rfl
    rw [hfilled, hmax]
    exact (hbound.widen v.shape).call3 (hbound'.widen v.shape) (hbound''.widen v.shape)
      ((hfg _ _ _).trans ((Value.zip3_fill g hsize).trans hzip))
  cases k <;> cases hk <;> cases hn
  all_goals
    simp only [operate, hx, hy, hz, Option.getD_some] at hop
    exact hblend _ _ (fun _ _ _ => rfl) hop

theorem requirement_of_isPure (hk : k.isPure = true) (hf : k.folded? = none) :
    k = .append ∨ k.requirement = .leading 1 ∨ k.requirement = .leading 2 ∨
      k.requirement = .leading 3 ∧ k.inputLimit = 3 := by
  cases k <;> cases hk <;> cases hf <;> decide

/-- The expression of a node has the value that evaluation gives the node. -/
theorem expression_gives (hb : ∀ o ∈ operands.filled, o.Bound env) (hk : k.isPure = true)
    (hlimit : ∀ i, k.inputLimit ≤ i → operands.at? i = none)
    (hv : (evaluate k literal (operandValues operands)).isEmpty = false) (s : Stage)
    (id : NodeId) :
    (expression .glsl330 s k id operands).Gives env
      (evaluate k literal (operandValues operands)) := by
  cases hf : k.folded? with
  | some f => exact folded_gives hb hf hv
  | none =>
    cases hu : k.unary? with
    | some f => exact unary_gives hb hu hv
    | none =>
      rcases requirement_of_isPure hk hf with rfl | hn | hn | ⟨hn, hthree⟩
      · have hconcat := operate_of_evaluate hk hf hu hv
        have hmet := isMet_of_evaluate hv
        simp only [operate, filled_operandValues] at hconcat
        refine append_gives hb (fun hnil => ?_) hconcat
        simp [Kind.requirement, Kind.isVariadic, Requirement.isMet, filled_operandValues,
          hnil] at hmet
      · exact single_gives hb hk hf hu hn hv
      · exact pair_gives hb hk hf hu hn hv
      · exact triple_gives hb hk hf hu hn (hlimit 3 hthree.le) hv

end

end Glsl

end ShaderGraph
