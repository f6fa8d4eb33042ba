import ShaderGraph.Glsl.Expr
import ShaderGraph.Graph.Basic

namespace ShaderGraph.Glsl

inductive Dialect where
  | glsl330
  | gles100
  deriving DecidableEq, Repr

inductive Stage where
  | vertex
  | fragment
  deriving DecidableEq, Repr

def Stage.sink : Stage → NodeId
  | vertex => Graph.vertexSink
  | fragment => Graph.fragmentSink

namespace Dialect

def name : Dialect → String
  | glsl330 => "Glsl330"
  | gles100 => "Gles100"

def ofName? (s : String) : Option Dialect := [glsl330, gles100].find? fun d => d.name = s

/-- The name messages use. -/
def label : Dialect → String
  | glsl330 => "GLSL 330"
  | gles100 => "GLSL ES 100"

def version : Dialect → String
  | glsl330 => "#version 330 core"
  | gles100 => "#version 100"

def precision? : Dialect → Stage → Option String
  | gles100, .fragment => some "precision mediump float;"
  | _, _ => none

def attributeWord : Dialect → String
  | glsl330 => "in"
  | gles100 => "attribute"

def varyingWord : Dialect → Stage → String
  | glsl330, .vertex => "out"
  | glsl330, .fragment => "in"
  | gles100, _ => "varying"

def fragmentDeclaration? : Dialect → Option String
  | glsl330 => some "out vec4 frag_color;"
  | gles100 => none

def fragmentOutput : Dialect → String
  | glsl330 => "frag_color"
  | gles100 => "gl_FragColor"

def texture : Dialect → Func
  | glsl330 => .texture
  | gles100 => .texture2D

def round (d : Dialect) (x : Expr) : Expr :=
  match d with
  | glsl330 => .call1 .round x
  | gles100 => .call1 .floor (.binary .add x (.number (.nearest false 1 2)))

def trunc (d : Dialect) (x : Expr) : Expr :=
  match d with
  | glsl330 => .call1 .trunc x
  | gles100 => .bracket (.binary .mul (.call1 .sign x) (.call1 .floor (.call1 .abs x)))

def transpose (d : Dialect) (m : Expr) : Expr :=
  match d with
  | glsl330 => .call1 .transpose m
  | gles100 => .call .mat4 ((List.range 16).map fun i => .element m (i % 4) (i / 4))

end Dialect

end ShaderGraph.Glsl
