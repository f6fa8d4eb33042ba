import ShaderGraph.Proofs.Inputs
import ShaderGraph.Proofs.Glsl.TwoWalks

namespace ShaderGraph.Glsl

variable (f : NodeId → NodeId)

mutual

def Expr.renumber (f : NodeId → NodeId) : Expr → Expr
  | .node id => .node (f id)
  | .ident name => .ident name
  | .sampler unit => .sampler unit
  | .number x => .number x
  | .call g args => .call g (Expr.renumberAll f args)
  | .binary op a b => .binary op (a.renumber f) (b.renumber f)
  | .bracket e => .bracket (e.renumber f)
  | .field e letters => .field (e.renumber f) letters
  | .element m column row => .element (m.renumber f) column row
  | .blank => .blank

def Expr.renumberAll (f : NodeId → NodeId) : List Expr → List Expr
  | [] => []
  | e :: es => e.renumber f :: Expr.renumberAll f es

end

def Declaration.renumber : Declaration → Declaration
  | constant id value => .constant (f id) value
  | uniform id shape => .uniform (f id) shape
  | sampler unit => .sampler unit

def Statement.renumber : Statement → Statement
  | define shape id e => .define shape (f id) (e.renumber f)
  | discardBelow sample threshold => .discardBelow (sample.renumber f) threshold

def Program.renumber (p : Program) : Program where
  dialect := p.dialect
  stage := p.stage
  declarations := p.declarations.map (Declaration.renumber f)
  body := p.body.map (Statement.renumber f)
  output := p.output.renumber f

def CompileError.renumber : CompileError → CompileError
  | unresolved id => .unresolved (f id)
  | cycle c => .cycle ⟨f c.through⟩

def Operand.renumber (o : Operand) : Operand := ⟨f o.id, o.value⟩

/-- What a program takes from a node besides its number. -/
structure Ingredients where
  kind : Kind
  literal : Value
  property : Bool
  alphaClip : Option Scalar
  output : Value
  deriving DecidableEq

def ingredients (n : Node) : Ingredients :=
  ⟨n.kind, n.literal, n.property, n.alphaClip, n.output⟩

def renumberOperands (operands : Slots Operand) : Slots Operand :=
  operands.apply fun o => some (o.renumber f)

mutual

theorem Expr.renumber_id : ∀ e : Expr, e.renumber id = e
  | .node _ | .ident _ | .sampler _ | .number _ | .blank => rfl
  | .call g args => congrArg (Expr.call g) (Expr.renumberAll_id args)
  | .binary op a b => by rw [Expr.renumber, a.renumber_id, b.renumber_id]
  | .bracket e => by rw [Expr.renumber, e.renumber_id]
  | .field e letters => by rw [Expr.renumber, e.renumber_id]
  | .element m column row => by rw [Expr.renumber, m.renumber_id]

theorem Expr.renumberAll_id : ∀ es : List Expr, Expr.renumberAll id es = es
  | [] => rfl
  | e :: es => by rw [Expr.renumberAll, e.renumber_id, Expr.renumberAll_id es]

end

theorem Declaration.renumber_id (x : Declaration) : x.renumber id = x := by
  cases x <;> rfl

theorem Statement.renumber_id (st : Statement) : st.renumber id = st := by
  cases st with
  | define shape i e => rw [renumber, e.renumber_id, id]
  | discardBelow sample threshold => rw [renumber, sample.renumber_id]

theorem Program.renumber_id (p : Program) : p.renumber id = p := by
  have hdeclarations : Declaration.renumber id = id := funext Declaration.renumber_id
  have hbody : Statement.renumber id = id := funext Statement.renumber_id
  rw [renumber, hdeclarations, hbody, List.map_id, List.map_id, p.output.renumber_id]

theorem CompileError.renumber_id (e : CompileError) : e.renumber id = e := by
  cases e <;> rfl

section Build

variable {f}

theorem renumberAll_eq (es : List Expr) : Expr.renumberAll f es = es.map (Expr.renumber f) := by
  induction es with
  | nil => rfl
  | cons e es ih => rw [Expr.renumberAll, ih, List.map_cons]

theorem renumber_call (g : Func) (args : List Expr) :
    (Expr.call g args).renumber f = .call g (args.map (Expr.renumber f)) := by
  rw [Expr.renumber, renumberAll_eq]

theorem renumber_chain (op : Op) (es : List Expr) :
    (Expr.chain op es).renumber f = .chain op (es.map (Expr.renumber f)) := by
  cases es with
  | nil => rfl
  | cons e es =>
    simp only [Expr.chain, List.map_cons]
    induction es generalizing e with
    | nil => rfl
    | cons x es ih => exact ih (.binary op e x)

theorem renumber_nested (g : Func) (es : List Expr) :
    (nested g es).renumber f = nested g (es.map (Expr.renumber f)) := by
  cases es with
  | nil => rfl
  | cons e es =>
    simp only [nested, List.map_cons]
    induction es generalizing e with
    | nil => rfl
    | cons x es ih => exact ih (.call2 g e x)

theorem renumber_widen (o : Operand) (n : Nat) :
    (o.widen n).renumber f = (o.renumber f).widen n := by
  change (if o.size = 1 ∧ 1 < n then Expr.call1 (.vec n) o.expr else o.expr).renumber f =
    if o.size = 1 ∧ 1 < n then Expr.call1 (.vec n) (o.renumber f).expr else (o.renumber f).expr
  split <;> rfl

def Product.renumber (f : NodeId → NodeId) (p : Product) : Product :=
  { p with expr := p.expr.renumber f }

theorem Product.renumber_times (p : Product) (o : Operand) :
    (p.times o).renumber f = (p.renumber f).times (o.renumber f) := by
  have hleft : (if p.compound then Expr.bracket p.expr else p.expr).renumber f =
      if p.compound then .bracket (p.expr.renumber f) else p.expr.renumber f := by
    split <;> rfl
  have hsize : (o.renumber f).size = o.size := rfl
  simp only [renumber, times, hsize, Product.mk.injEq, and_true]
  split
  · rw [Expr.renumber, hleft]
    rfl
  · rw [Expr.renumber, hleft]
    rfl

theorem renumber_product (os : List Operand) :
    (Product.ofOperands os).renumber f = Product.ofOperands (os.map (Operand.renumber f)) := by
  have hfold : ∀ (os : List Operand) (p : Product), (os.foldl Product.times p).renumber f =
      (os.map (Operand.renumber f)).foldl Product.times (p.renumber f) := by
    intro os
    induction os with
    | nil => exact fun _ => rfl
    | cons o os ih =>
      intro p
      rw [List.foldl_cons, ih, Product.renumber_times, List.map_cons, List.foldl_cons]
  cases os with
  | nil => rfl
  | cons o os => exact congrArg Product.expr (hfold os ⟨o.expr, o.size, false⟩)

theorem renumber_read (a : Attribute) (s : Stage) : (a.read s).renumber f = a.read s := by
  cases s <;> rfl

theorem renumber_select (e : Expr) (mode : Option Operand) :
    (select e mode).renumber f = select (e.renumber f) (mode.map (Operand.renumber f)) := by
  have hmode : (mode.map (Operand.renumber f)).map Operand.value = mode.map Operand.value := by
    cases mode <;> rfl
  unfold select
  rw [hmode]
  split <;> rfl

theorem renumber_transpose (d : Dialect) (m : Expr) :
    (d.transpose m).renumber f = d.transpose (m.renumber f) := by
  cases d with
  | glsl330 => rfl
  | gles100 => simp only [Dialect.transpose, renumber_call, List.map_map]; rfl

theorem renumber_widenOutput (e : Expr) (n : Nat) :
    (widenOutput e n).renumber f = widenOutput (e.renumber f) n := by
  unfold widenOutput
  split <;> rfl

theorem renumber_defaultOutput (s : Stage) : (defaultOutput s).renumber f = defaultOutput s := by
  cases s <;> rfl

end Build

section Node

variable {f} {operands : Slots Operand}

theorem at?_renumberOperands (i : Nat) :
    (renumberOperands f operands).at? i = (operands.at? i).map (Operand.renumber f) := by
  rw [renumberOperands, Slots.at?_apply]
  cases operands.at? i <;> rfl

theorem filled_renumberOperands :
    (renumberOperands f operands).filled = operands.filled.map (Operand.renumber f) := by
  rw [renumberOperands, Slots.filled_apply]
  exact congrFun List.filterMap_eq_map _

theorem value_renumberOperands (i : Nat) :
    ((renumberOperands f operands).at? i).map Operand.value =
      (operands.at? i).map Operand.value := by
  rw [at?_renumberOperands, Option.map_map]
  rfl

theorem size_renumberOperands (i : Nat) :
    ((renumberOperands f operands).at? i).map Operand.size = (operands.at? i).map Operand.size := by
  rw [at?_renumberOperands, Option.map_map]
  rfl

/-- Where an operand is looked for, its number is all that changes. -/
theorem renumber_getD {k : Operand → Expr} (hk : ∀ o, (k o).renumber f = k (o.renumber f))
    (i : Nat) {e : Expr} (he : e.renumber f = e) :
    (((operands.at? i).map k).getD e).renumber f =
      (((renumberOperands f operands).at? i).map k).getD e := by
  rw [at?_renumberOperands]
  cases operands.at? i with
  | none => exact he
  | some o => exact hk o

theorem renumber_sample (d : Dialect) (s : Stage) :
    (sample d s operands).renumber f = sample d s (renumberOperands f operands) := by
  have hcoordinates :
      (((operands.at? 2).map Operand.expr).getD (Attribute.uv.read s)).renumber f =
        (((renumberOperands f operands).at? 2).map Operand.expr).getD (Attribute.uv.read s) :=
    renumber_getD (fun _ => rfl) 2 (renumber_read .uv s)
  simp only [sample, value_renumberOperands, ← hcoordinates]
  rfl

/-- The expression of a node reads the numbers of its operands and its own, and looks at none. -/
theorem renumber_expression (d : Dialect) (s : Stage) (kind : Kind) (id : NodeId) :
    (expression d s kind id operands).renumber f =
      expression d s kind (f id) (renumberOperands f operands) := by
  have hoperand : ∀ i, (((operands.at? i).map Operand.expr).getD .zero).renumber f =
      (((renumberOperands f operands).at? i).map Operand.expr).getD .zero := fun i =>
    renumber_getD (fun _ => rfl) i rfl
  have hwidened : ∀ i n, (((operands.at? i).map (Operand.widen · n)).getD .zero).renumber f =
      (((renumberOperands f operands).at? i).map (Operand.widen · n)).getD .zero := fun i n =>
    renumber_getD (fun o => renumber_widen o n) i rfl
  have hexprs : (operands.filled.map Operand.expr).map (Expr.renumber f) =
      (renumberOperands f operands).filled.map Operand.expr := by
    rw [filled_renumberOperands, List.map_map, List.map_map]
    rfl
  have hsizes : (renumberOperands f operands).filled.map Operand.size =
      operands.filled.map Operand.size := by
    rw [filled_renumberOperands, List.map_map]
    rfl
  have hblended : ∀ n, (operands.filled.map (Operand.widen · n)).map (Expr.renumber f) =
      (renumberOperands f operands).filled.map (Operand.widen · n) := by
    intro n
    rw [filled_renumberOperands, List.map_map, List.map_map]
    exact List.map_congr_left fun o _ => renumber_widen o n
  have hpowered : ∀ g : Func, ∀ n : Nat,
      (Expr.call2 g (((operands.at? 0).map Operand.expr).getD .zero)
        (((operands.at? 1).map (Operand.widen · n)).getD .zero)).renumber f =
      .call2 g ((((renumberOperands f operands).at? 0).map Operand.expr).getD .zero)
        ((((renumberOperands f operands).at? 1).map (Operand.widen · n)).getD .zero) := by
    intro g n
    rw [← hoperand, ← hwidened]
    rfl
  cases kind
  case time | mvpMatrix => rfl
  case position | uv => exact renumber_read _ s
  case normal | viewDirection | fresnel => cases s <;> rfl
  case vertexColor =>
    simp only [expression, renumber_select, renumber_read, at?_renumberOperands]
  case textureSample =>
    simp only [expression, renumber_select, renumber_sample, at?_renumberOperands]
  case add | subtract | divide => simp only [expression, renumber_chain, hexprs]
  case multiply => simp only [expression, renumber_product, filled_renumberOperands]
  case max | min => simp only [expression, renumber_nested, hexprs]
  case append =>
    have hfilled : (renumberOperands f operands).filled =
        operands.filled.map (Operand.renumber f) := filled_renumberOperands
    have hsum : ((renumberOperands f operands).filled).foldr (fun o n => o.size + n) 0 =
        operands.filled.foldr (fun o n => o.size + n) 0 := by
      rw [hfilled, List.foldr_map]
      rfl
    simp only [expression]
    rw [hsum, ← hexprs, hfilled]
    cases operands.filled with
    | nil => rfl
    | cons o os =>
      cases os with
      | nil => rfl
      | cons o' os => exact renumber_call _ _
  case desaturate =>
    simp only [expression, size_renumberOperands, ← hoperand]
    split <;> rfl
  case power | step =>
    simp only [expression, size_renumberOperands]
    exact hpowered _ _
  case lerp | smoothstep => simp only [expression, renumber_call, hblended, hsizes]
  case transpose => simp only [expression, renumber_transpose, hoperand]
  case trunc | round => cases d <;> simp only [expression, ← hoperand] <;> rfl
  case vertexOutput | fragmentOutput => exact hoperand 0
  all_goals simp only [expression, ← hoperand]; rfl

variable {n m : Node}

theorem renumber_declaration? (hid : m.id = f n.id) (hsame : ingredients m = ingredients n) :
    declaration? m (renumberOperands f operands) =
      (declaration? n operands).map (Declaration.renumber f) := by
  obtain ⟨hkind, hliteral, hproperty, -, -⟩ := Ingredients.mk.inj hsame
  unfold declaration? literalDeclaration
  rw [hkind, hliteral, hproperty, hid, value_renumberOperands]
  split
  · split <;> rfl
  · split <;> rfl

theorem renumber_statements (d : Dialect) (s : Stage) (hid : m.id = f n.id)
    (hsame : ingredients m = ingredients n) :
    statements d s m (renumberOperands f operands) =
      (statements d s n operands).map (Statement.renumber f) := by
  obtain ⟨hkind, -, -, halpha, houtput⟩ := Ingredients.mk.inj hsame
  unfold statements
  rw [hkind, halpha, houtput, hid, ← renumber_expression, ← renumber_sample]
  split
  · rfl
  · rw [List.map_append]
    cases n.alphaClip with
    | none => rfl
    | some threshold =>
      simp only
      split <;> rfl

end Node

end ShaderGraph.Glsl
