import ShaderGraph.Glsl.Dialect

namespace ShaderGraph.Glsl

inductive Attribute where
  | position | normal | uv | color
  deriving DecidableEq, Repr

namespace Attribute

def all : List Attribute := [position, normal, uv, color]

def name : Attribute → String
  | position => "position"
  | normal => "normal"
  | uv => "uv"
  | color => "color"

def shape : Attribute → Shape
  | position | normal => .vec3
  | uv => .vec2
  | color => .vec4

def source (a : Attribute) : String := "a_" ++ a.name

def passed (a : Attribute) : String := "v_" ++ a.name

def read (a : Attribute) : Stage → Expr
  | .vertex => .ident a.source
  | .fragment => .ident a.passed

end Attribute

inductive Declaration where
  | constant (id : NodeId) (value : Value)
  | uniform (id : NodeId) (shape : Shape)
  | sampler (unit : Nat)
  deriving DecidableEq

def constructor (s : Shape) : Func := if s = .mat4 then .mat4 else .vec s.size

def literalExpr (v : Value) : Expr :=
  match v.components with
  | [x] => .number x
  | xs => .call (constructor v.shape) (xs.map .number)

def Declaration.render : Declaration → String
  | constant id value =>
    s!"const {value.shape.keyword} {nodeName id} = {(literalExpr value).render};"
  | uniform id shape => s!"uniform {shape.keyword} {nodeName id};"
  | sampler unit => s!"uniform sampler2D {samplerName unit};"

inductive Statement where
  | define (shape : Shape) (id : NodeId) (e : Expr)
  /-- Gives the fragment up when the alpha of a sample is too low. -/
  | discardBelow (sample : Expr) (threshold : Scalar)
  deriving Repr

def Statement.render : Statement → String
  | define shape id e => s!"{shape.keyword} {nodeName id} = {e.render};"
  | discardBelow sample threshold =>
    let alpha := Expr.field sample "a"
    s!"if ({alpha.render} < {numberText threshold}) discard;"

structure Program where
  dialect : Dialect
  stage : Stage
  declarations : List Declaration
  body : List Statement
  output : Expr

def uniforms : List String :=
  ["uniform mat4 u_mvp;", "uniform float u_time;", "uniform vec3 u_camera_position;"]

def Stage.target (s : Stage) (d : Dialect) : String :=
  match s with
  | vertex => "gl_Position"
  | fragment => d.fragmentOutput

namespace Program

def header (p : Program) : List String :=
  let sourceLine (a : Attribute) : String :=
    s!"{p.dialect.attributeWord} {a.shape.keyword} {a.source};"
  let passedLine (a : Attribute) : String :=
    s!"{p.dialect.varyingWord p.stage} {a.shape.keyword} {a.passed};"
  [p.dialect.version] ++ (p.dialect.precision? p.stage).toList ++ [""]
    ++ (if p.stage = .vertex then Attribute.all.map sourceLine ++ [""] else [])
    ++ Attribute.all.map passedLine
    ++ (if p.stage = .fragment then p.dialect.fragmentDeclaration?.toList else [])
    ++ [""]

def entry (p : Program) : List String :=
  (if p.stage = .vertex then Attribute.all.map fun a => s!"{a.passed} = {a.source};" else [])
    ++ p.body.map Statement.render
    ++ [s!"{p.stage.target p.dialect} = {p.output.render};"]

def lines (p : Program) : List String :=
  p.header ++ uniforms ++ p.declarations.map Declaration.render ++ ["", "void main() \x7b"]
    ++ p.entry.map ("    " ++ ·) ++ ["\x7d"]

def render (p : Program) : String := String.join (p.lines.map (· ++ "\n"))

end Program

end ShaderGraph.Glsl
