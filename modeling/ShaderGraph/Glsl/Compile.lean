import ShaderGraph.Channel
import ShaderGraph.Evaluation
import ShaderGraph.Glsl.Program

namespace ShaderGraph.Glsl

structure Operand where
  id : NodeId
  value : Value

namespace Operand

def size (o : Operand) : Nat := o.value.size

def expr (o : Operand) : Expr := .node o.id

def widen (o : Operand) (n : Nat) : Expr :=
  if o.size = 1 ∧ 1 < n then .call1 (.vec n) o.expr else o.expr

end Operand

/-- A product under way: its expression, its size, and whether it needs brackets as a factor. -/
structure Product where
  expr : Expr
  size : Nat
  compound : Bool

namespace Product

/-- One factor more. A matrix goes to the left of a vector of four. -/
def times (p : Product) (o : Operand) : Product where
  expr :=
    let left := if p.compound then .bracket p.expr else p.expr
    if p.size = 4 ∧ o.size = 16 then .binary .mul o.expr left else .binary .mul left o.expr
  size :=
    if (p.size = 16 ∧ o.size = 4) ∨ (p.size = 4 ∧ o.size = 16) then 4
    else if p.size = 1 then o.size
    else p.size
  compound := true

def ofOperands : List Operand → Expr
  | [] => .blank
  | o :: os => (os.foldl times ⟨o.expr, o.size, false⟩).expr

end Product

def nested (f : Func) : List Expr → Expr
  | [] => .blank
  | e :: es => es.foldl (.call2 f) e

section

variable (d : Dialect) (s : Stage)

/-- The normal, made unit length again where it was interpolated. -/
def normal : Expr :=
  match s with
  | .vertex => Attribute.normal.read s
  | .fragment => .call1 .normalize (Attribute.normal.read s)

def viewDirection : Expr :=
  .call1 .normalize (.binary .sub (.ident "u_camera_position") (Attribute.position.read s))

def fresnel : Expr :=
  let facing := Expr.call2 .dot (normal s) (viewDirection s)
  .call2 .pow (.binary .sub .one (.call .clamp [facing, .zero, .one])) (.number (.ofNat 5))

def sample (operands : Slots Operand) : Expr :=
  let unit := textureUnit ((operands.at? 0).map Operand.value)
  let coordinates := ((operands.at? 2).map Operand.expr).getD (Attribute.uv.read s)
  .call2 d.texture (.sampler unit) coordinates

def select (e : Expr) (mode : Option Operand) : Expr :=
  match (Channel.ofInput (mode.map Operand.value)).swizzle? with
  | some letters => .field e letters
  | none => e

def luma : Expr :=
  .call (.vec 3) [.number (.nearest false 3 10), .number (.nearest false 6 10),
    .number (.nearest false 1 10)]

def expression (kind : Kind) (id : NodeId) (operands : Slots Operand) : Expr :=
  let filled := operands.filled
  let a := ((operands.at? 0).map Operand.expr).getD .zero
  let b := ((operands.at? 1).map Operand.expr).getD .zero
  let share := Expr.bracket (.binary .div (.call2 .dot a b) (.call2 .dot b b))
  let powered (f : Func) : Expr :=
    let n := ((operands.at? 0).map Operand.size).getD 1
    .call2 f a (((operands.at? 1).map (Operand.widen · n)).getD .zero)
  let blended (f : Func) : Expr :=
    .call f (filled.map (Operand.widen · ((filled.map Operand.size).max?.getD 1)))
  match kind with
  | .time => .ident "u_time"
  | .position => Attribute.position.read s
  | .normal => normal s
  | .uv => Attribute.uv.read s
  | .mvpMatrix => .ident "u_mvp"
  | .viewDirection => viewDirection s
  | .fresnel => fresnel s
  | .vertexColor => select (Attribute.color.read s) (operands.at? 0)
  | .textureSample => select (sample d s operands) (operands.at? 1)
  | .add => .chain .add (filled.map Operand.expr)
  | .subtract => .chain .sub (filled.map Operand.expr)
  | .divide => .chain .div (filled.map Operand.expr)
  | .multiply => Product.ofOperands filled
  | .max => nested .max (filled.map Operand.expr)
  | .min => nested .min (filled.map Operand.expr)
  | .append =>
    match filled with
    | [o] => o.expr
    | _ => .call (.vec (filled.foldr (fun o n => o.size + n) 0)) (filled.map Operand.expr)
  | .abs => .call1 .abs a
  | .cos => .call1 .cos a
  | .sin => .call1 .sin a
  | .tan => .call1 .tan a
  | .radians => .call1 .radians a
  | .degrees => .call1 .degrees a
  | .negate => .binary .mul a (.number (-.one))
  | .reciprocal => .binary .div .one a
  | .sqrt => .call1 .sqrt a
  | .trunc => d.trunc a
  | .round => d.round a
  | .ceil => .call1 .ceil a
  | .floor => .call1 .floor a
  | .fract => .call1 .fract a
  | .saturate => .call .clamp [a, .zero, .one]
  | .exp2 => .call1 .exp2 a
  | .oneMinus => .binary .sub .one a
  | .normalize => .call1 .normalize a
  | .length => .call1 .length a
  | .dot => .call2 .dot a b
  | .cross => .call2 .cross a b
  | .distance => .call2 .distance a b
  | .project => .binary .mul share b
  | .reject => .binary .sub a (.binary .mul share b)
  | .halfDirection => .call1 .normalize (.binary .add (.call1 .normalize a) (.call1 .normalize b))
  | .desaturate =>
    if ((operands.at? 0).map Operand.size).getD 3 = 4 then
      let color := Expr.field a "rgb"
      let gray := Expr.call1 (.vec 3) (.call2 .dot color luma)
      .call2 (.vec 4) (.call .mix [color, gray, b]) (.field a "a")
    else .call .mix [a, .call1 (.vec 3) (.call2 .dot a luma), b]
  | .power => powered .pow
  | .step => powered .step
  | .posterize => .binary .div (.call1 .floor (.binary .mul a b)) b
  | .lerp => blended .mix
  | .smoothstep => blended .smoothstep
  | .transpose => d.transpose a
  | .matrixMultiply => .binary .mul a b
  | .float | .vector2 | .vector3 | .vector4 | .matrix4 => .node id
  | .vertexOutput | .fragmentOutput => a

/-- What a node adds to the body: its definition, for a sample with an alpha threshold behind a
guard. -/
def statements (n : Node) (operands : Slots Operand) : List Statement :=
  if n.kind.isLiteral || n.kind.isSink then []
  else
    let guards := match n.alphaClip with
      | some threshold =>
        if n.kind = .textureSample ∧ s = .fragment then
          [Statement.discardBelow (sample d s operands) threshold]
        else []
      | none => []
    guards ++ [.define n.output.shape n.id (expression d s n.kind n.id operands)]

end

def widenOutput (e : Expr) (n : Nat) : Expr :=
  match n with
  | 1 => .call2 (.vec 4) (.call1 (.vec 3) e) .one
  | 2 => .call (.vec 4) [e, .zero, .one]
  | 3 => .call2 (.vec 4) e .one
  | _ => e

def defaultOutput : Stage → Expr
  | .vertex =>
    .binary .mul (.ident "u_mvp") (.call2 (.vec 4) (Attribute.position.read .vertex) .one)
  | .fragment => .call1 (.vec 4) .one

inductive CompileError where
  | unresolved (id : NodeId)
  | cycle (c : Cycle)
  deriving DecidableEq, Repr

def CompileError.message : CompileError → String
  | unresolved id => s!"Node {id} has no value; connect its inputs before compiling"
  | cycle c => c.message

def operandsOf (g : Graph) (links : List Link) (id : NodeId) : Slots Operand :=
  (inputsFrom links id).apply fun i => (g.output? i).map (Operand.mk i)

/-- How far the declarations have got: the nodes come to, the units that have a sampler, and the
declarations in order. -/
structure Hoisted where
  visited : List NodeId
  samplers : List Nat
  lines : List Declaration

namespace Hoisted

def start : Hoisted := ⟨[], [], []⟩

def enter (h : Hoisted) (id : NodeId) : Hoisted := { h with visited := id :: h.visited }

def declare (h : Hoisted) (line : Declaration) : Hoisted := { h with lines := h.lines ++ [line] }

def declareSampler (h : Hoisted) (unit : Nat) : Hoisted :=
  if h.samplers.any (· == unit) then h
  else { h.declare (.sampler unit) with samplers := unit :: h.samplers }

end Hoisted

def literalDeclaration (n : Node) : Declaration :=
  if n.property then .uniform n.id n.literal.shape else .constant n.id n.literal

/-- Declares what a node and those behind it need. A path of distinct nodes has `room` for that many
more. -/
def hoist (g : Graph) (links : List Link) :
    (room : Nat) → Hoisted → NodeId → Except CompileError Hoisted
  | room, h, id =>
    if h.visited.any (· == id) then .ok h
    else match g.node? id with
      | none => .error (.unresolved id)
      | some n =>
        if n.kind.isLiteral then .ok ((h.enter id).declare (literalDeclaration n))
        else match room with
          | 0 => .error (.cycle ⟨id⟩)
          | room + 1 =>
            let h := h.enter id
            let h :=
              if n.kind = .textureSample then
                h.declareSampler (textureUnit (((operandsOf g links id).at? 0).map Operand.value))
              else h
            (inputsFrom links id).filled.foldlM (hoist g links room) h

/-- How far the body has got: the nodes that are done, those begun and not done, and the statements
in order. -/
structure Emission where
  emitted : List NodeId
  inProgress : List NodeId
  lines : List Statement

def Emission.start : Emission := ⟨[], [], []⟩

section

variable {m : Type → Type} [Monad m] [MonadExceptOf CompileError m]

def emit (write : Node → Slots Operand → m (List Statement)) (g : Graph) (links : List Link) :
    (room : Nat) → Emission → NodeId → m Emission
  | room, e, id =>
    if e.emitted.any (· == id) then pure e
    else if e.inProgress.any (· == id) then throw (.cycle ⟨id⟩)
    else match g.node? id with
      | none => throw (.unresolved id)
      | some n =>
        if !n.isValid then throw (.unresolved id)
        else match room with
          | 0 => throw (.cycle ⟨id⟩)
          | room + 1 => do
            let e ← (inputsFrom links id).filled.foldlM (emit write g links room)
              { e with inProgress := id :: e.inProgress }
            let lines ← write n (operandsOf g links id)
            return ⟨id :: e.emitted, e.inProgress.erase id, e.lines ++ lines⟩

/-- The program of a stage: first the declarations of all that is behind its output, then the
statements. -/
def compileStageWith (write : Node → Slots Operand → m (List Statement)) (g : Graph) (d : Dialect)
    (s : Stage) : m Program :=
  let links := g.links
  match (inputsFrom links s.sink).at? 0 with
  | none => return ⟨d, s, [], [], defaultOutput s⟩
  | some root => do
    let h ← match hoist g links g.nodes.length .start root with
      | .ok h => pure h
      | .error e => throw e
    let e ← emit write g links g.nodes.length .start root
    return ⟨d, s, h.lines, e.lines,
      widenOutput (.node root) (((g.output? root).map Value.size).getD 0)⟩

end

def compileStage (g : Graph) (d : Dialect) (s : Stage) : Except CompileError Program :=
  compileStageWith (fun n operands => pure (statements d s n operands)) g d s

/-- Compilation by a build that may stop over the channels of a sample. -/
def compileStageIn (o : Overflow) (g : Graph) (d : Dialect) (s : Stage) :
    ExceptT CompileError Option Program :=
  compileStageWith (fun n operands =>
    if n.kind.stops o (operands.apply fun x => some x.value) then ExceptT.mk none
    else pure (statements d s n operands)) g d s

structure Shaders where
  vertex : String
  fragment : String
  deriving DecidableEq, Repr

def compile (g : Graph) (d : Dialect) : Except CompileError Shaders := do
  let vertex ← compileStage g d .vertex
  let fragment ← compileStage g d .fragment
  return ⟨vertex.render, fragment.render⟩

end ShaderGraph.Glsl
