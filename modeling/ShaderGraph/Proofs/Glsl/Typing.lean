import ShaderGraph.Proofs.Glsl.Rendering
import ShaderGraph.Proofs.Glsl.TwoWalks

namespace ShaderGraph

namespace Shape

/-- The shapes that component-wise functions work on, `genType` in signatures. -/
def generic : List Shape := [scalar, vec2, vec3, vec4]

def join? (s t : Shape) : Option Shape :=
  if s = t then some s
  else if s = scalar then some t
  else if t = scalar then some s
  else none

end Shape

namespace Glsl

inductive Ty where
  | value (s : Shape)
  | sampler2D
  deriving DecidableEq, Repr

abbrev Ty.float : Ty := .value .scalar

abbrev Ty.vec2 : Ty := .value .vec2

abbrev Ty.vec3 : Ty := .value .vec3

abbrev Ty.vec4 : Ty := .value .vec4

abbrev Ty.mat4 : Ty := .value .mat4

/-- The type of a variable for values of a shape; none is of type `void`. -/
def Ty.ofShape? : Shape → Option Ty
  | .empty => none
  | .scalar => some float
  | .vec2 => some vec2
  | .vec3 => some vec3
  | .vec4 => some vec4
  | .mat4 => some mat4

/-- A parameter or the result of a function. The generic one is of any type that component-wise
functions work on, but of the same throughout a call. -/
inductive Param where
  | generic
  | fixed (t : Ty)

def Param.type (g : Shape) : Param → Ty
  | generic => .value g
  | fixed t => t

structure Signature where
  params : List Param
  result : Param

def Signature.calls (s : Signature) : List (List Ty × Ty) :=
  Shape.generic.map fun g => (s.params.map (Param.type g), s.result.type g)

/-- The signatures of a function that is no constructor, none where a dialect lacks it. -/
def Func.signatures (d : Dialect) : Func → List Signature
  | .abs | .cos | .sin | .tan | .radians | .degrees | .sqrt | .ceil | .floor | .fract | .sign
  | .exp2 | .normalize => [⟨[.generic], .generic⟩]
  | .trunc | .round => if d = .glsl330 then [⟨[.generic], .generic⟩] else []
  | .length => [⟨[.generic], .fixed .float⟩]
  | .dot | .distance => [⟨[.generic, .generic], .fixed .float⟩]
  | .cross => [⟨[.fixed .vec3, .fixed .vec3], .fixed .vec3⟩]
  | .pow => [⟨[.generic, .generic], .generic⟩]
  | .max | .min =>
    [⟨[.generic, .generic], .generic⟩, ⟨[.generic, .fixed .float], .generic⟩]
  | .step => [⟨[.generic, .generic], .generic⟩, ⟨[.fixed .float, .generic], .generic⟩]
  | .clamp =>
    [⟨[.generic, .generic, .generic], .generic⟩,
      ⟨[.generic, .fixed .float, .fixed .float], .generic⟩]
  | .mix =>
    [⟨[.generic, .generic, .generic], .generic⟩, ⟨[.generic, .generic, .fixed .float], .generic⟩]
  | .smoothstep =>
    [⟨[.generic, .generic, .generic], .generic⟩,
      ⟨[.fixed .float, .fixed .float, .generic], .generic⟩]
  | .transpose => if d = .glsl330 then [⟨[.fixed .mat4], .fixed .mat4⟩] else []
  | .texture =>
    if d = .glsl330 then [⟨[.fixed .sampler2D, .fixed .vec2], .fixed .vec4⟩] else []
  | .texture2D =>
    if d = .gles100 then [⟨[.fixed .sampler2D, .fixed .vec2], .fixed .vec4⟩] else []
  | .mat4 | .vec _ => []

def components? : List Ty → Option Nat
  | [] => some 0
  | .value s :: ts => if s ∈ Shape.generic then (components? ts).map (s.size + ·) else none
  | .sampler2D :: _ => none

/-- The type of a constructor call. A single number fills a vector, and the columns of a matrix are
spelled out. -/
def construct? (s : Shape) (args : List Ty) : Option Ty :=
  if (s ≠ .mat4 ∧ args = [.float]) ∨ components? args = some s.size then some (.value s) else none

/-- The type of a call. There are vectors of two, three and four components only. -/
def Func.type? (d : Dialect) (f : Func) (args : List Ty) : Option Ty :=
  match f with
  | .vec 2 => construct? .vec2 args
  | .vec 3 => construct? .vec3 args
  | .vec 4 => construct? .vec4 args
  | .mat4 => construct? .mat4 args
  | f => ((f.signatures d).flatMap Signature.calls).lookup args

/-- Operators work on each component, but `*` is the product of linear algebra as well. -/
def Op.type? (op : Op) : Ty → Ty → Option Ty
  | .value s, .value t =>
    if op = .mul ∧ (s = .mat4 ∧ t = .vec4 ∨ s = .vec4 ∧ t = .mat4) then some .vec4
    else (s.join? t).map .value
  | .value _, .sampler2D | .sampler2D, .value _ | .sampler2D, .sampler2D => none

def fieldType? (letters : String) : Ty → Option Ty
  | .value s =>
    if s ∈ [.vec2, .vec3, .vec4] ∧ letters.toList ⊆ ['r', 'g', 'b', 'a'].take s.size then
      ((Shape.ofSize? letters.length).filter (· ∈ Shape.generic)).map .value
    else none
  | .sampler2D => none

def Stage.variables (s : Stage) : List (String × Shape) :=
  [("u_mvp", .mat4), ("u_time", .scalar), ("u_camera_position", .vec3)]
    ++ (if s = .vertex then Attribute.all.map fun a => (a.source, a.shape) else [])
    ++ Attribute.all.map fun a => (a.passed, a.shape)

structure Scope where
  dialect : Dialect
  stage : Stage
  nodes : List (NodeId × Shape)
  samplers : List Nat

mutual

/-- The type of an expression as it is written: an operand must be in brackets where the text would
be read otherwise. -/
def Expr.type? (c : Scope) : Expr → Option Ty
  | .node id => (c.nodes.lookup id).bind Ty.ofShape?
  | .ident name => (c.stage.variables.lookup name).map .value
  | .sampler unit => if unit ∈ c.samplers then some .sampler2D else none
  | .number _ => some .float
  | .call f args => (Expr.types? c args).bind (f.type? c.dialect)
  | .binary op a b =>
    if a.rank ≤ op.rank ∧ b.rank < op.rank then
      (a.type? c).bind fun s => (b.type? c).bind fun t => op.type? s t
    else none
  | .bracket e => e.type? c
  | .field e letters => if e.rank = 0 then (e.type? c).bind (fieldType? letters) else none
  | .element m column row =>
    if m.rank = 0 ∧ m.type? c = some .mat4 ∧ column < 4 ∧ row < 4 then some .float else none
  | .blank => none

def Expr.types? (c : Scope) : List Expr → Option (List Ty)
  | [] => some []
  | e :: es => (e.type? c).bind fun t => (Expr.types? c es).map (t :: ·)

end

def Declaration.binding? : Declaration → Option (NodeId × Shape)
  | constant id value => some (id, value.shape)
  | uniform id shape => some (id, shape)
  | sampler _ => none

def Statement.binding? : Statement → Option (NodeId × Shape)
  | define shape id _ => some (id, shape)
  | discardBelow .. => none

def Program.scope (p : Program) (before : List Statement) : Scope where
  dialect := p.dialect
  stage := p.stage
  nodes := p.declarations.filterMap Declaration.binding? ++ before.filterMap Statement.binding?
  samplers := p.declarations.filterMap Declaration.unit?

def Declaration.WellTyped (c : Scope) : Declaration → Prop
  | constant _ value => (literalExpr value).type? c = some (.value value.shape)
  | uniform _ shape => shape ≠ .empty
  | sampler _ => True

def Statement.WellTyped (c : Scope) : Statement → Prop
  | define shape _ e => e.type? c = some (.value shape)
  | discardBelow sample _ => (Expr.field sample "a").type? c = some .float

/-- Every line is well typed where it stands, and the stage output is assigned a `vec4`. -/
structure Program.WellTyped (p : Program) : Prop where
  declarations : ∀ x ∈ p.declarations, x.WellTyped (p.scope [])
  body : ∀ before st after, p.body = before ++ st :: after → st.WellTyped (p.scope before)
  output : p.output.type? (p.scope p.body) = some .vec4

section

variable {c : Scope}

theorem type?_call1 (f : Func) (a : Expr) :
    (Expr.call1 f a).type? c = (a.type? c).bind fun t => f.type? c.dialect [t] := by
  cases h : a.type? c <;> simp [Expr.call1, Expr.type?, Expr.types?, h]

theorem type?_call2 (f : Func) (a b : Expr) :
    (Expr.call2 f a b).type? c =
      (a.type? c).bind fun t => (b.type? c).bind fun u => f.type? c.dialect [t, u] := by
  cases h : a.type? c <;> cases h' : b.type? c <;>
    simp [Expr.call2, Expr.type?, Expr.types?, h, h']

theorem type?_call3 (f : Func) (a b e : Expr) :
    (Expr.call f [a, b, e]).type? c = (a.type? c).bind fun t => (b.type? c).bind fun u =>
      (e.type? c).bind fun v => f.type? c.dialect [t, u, v] := by
  cases h : a.type? c <;> cases h' : b.type? c <;> cases h'' : e.type? c <;>
    simp [Expr.type?, Expr.types?, h, h', h'']

theorem type?_binary (op : Op) {a b : Expr} (ha : a.rank ≤ op.rank) (hb : b.rank < op.rank) :
    (Expr.binary op a b).type? c =
      (a.type? c).bind fun s => (b.type? c).bind fun t => op.type? s t := by
  rw [Expr.type?, if_pos ⟨ha, hb⟩]

theorem type?_field {e : Expr} (he : e.rank = 0) (letters : String) :
    (Expr.field e letters).type? c = (e.type? c).bind (fieldType? letters) := by
  rw [Expr.type?, if_pos he]

theorem types?_map {α : Type} {f : α → Expr} {g : α → Ty} {xs : List α}
    (h : ∀ x ∈ xs, (f x).type? c = some (g x)) :
    Expr.types? c (xs.map f) = some (xs.map g) := by
  induction xs with
  | nil => rfl
  | cons x xs ih =>
    have hrest := ih fun y hy => h y (by simp [hy])
    simp [Expr.types?, h x (by simp), hrest]

end

end Glsl

end ShaderGraph
