import ShaderGraph.Node
import ShaderGraph.Scalar.Decimal

namespace ShaderGraph.Glsl

inductive Op where
  | add | sub | mul | div
  deriving DecidableEq, Repr

def Op.text : Op → String
  | add => " + "
  | sub => " - "
  | mul => " * "
  | div => " / "

inductive Func where
  | abs | cos | sin | tan | radians | degrees | sqrt | trunc | round | ceil | floor | fract | sign
  | exp2 | clamp | normalize | length | dot | cross | distance | pow | step | max | min | mix
  | smoothstep | transpose | texture | texture2D | mat4
  /-- The constructor of a vector with `n` components. -/
  | vec (n : Nat)
  deriving DecidableEq, Repr

def Func.name : Func → String
  | abs => "abs"
  | cos => "cos"
  | sin => "sin"
  | tan => "tan"
  | radians => "radians"
  | degrees => "degrees"
  | sqrt => "sqrt"
  | trunc => "trunc"
  | round => "round"
  | ceil => "ceil"
  | floor => "floor"
  | fract => "fract"
  | sign => "sign"
  | exp2 => "exp2"
  | clamp => "clamp"
  | normalize => "normalize"
  | length => "length"
  | dot => "dot"
  | cross => "cross"
  | distance => "distance"
  | pow => "pow"
  | step => "step"
  | max => "max"
  | min => "min"
  | mix => "mix"
  | smoothstep => "smoothstep"
  | transpose => "transpose"
  | texture => "texture"
  | texture2D => "texture2D"
  | mat4 => "mat4"
  | vec n => s!"vec{n}"

inductive Expr where
  /-- The result of a node. -/
  | node (id : NodeId)
  /-- A variable that is no node's. -/
  | ident (name : String)
  /-- The sampler of a texture unit. -/
  | sampler (unit : Nat)
  | number (x : Scalar)
  | call (f : Func) (args : List Expr)
  | binary (op : Op) (a b : Expr)
  | bracket (e : Expr)
  /-- Some components of a vector, by their letters. -/
  | field (e : Expr) (letters : String)
  /-- One element of a matrix. -/
  | element (m : Expr) (column row : Nat)
  /-- Stands for an operand that is not there, and is written as nothing. -/
  | blank
  deriving Repr

/-- A number in a program always has a point; what is not finite is written as zero. -/
def numberText (x : Scalar) : String :=
  if x.isFinite then
    let s := Scalar.toText x
    if s.toList.contains '.' then s else s ++ ".0"
  else "0.0"

def nodeName (id : NodeId) : String := s!"node_{id}"

def samplerName (unit : Nat) : String := s!"texture_{unit}"

mutual

def Expr.render : Expr → String
  | .node id => nodeName id
  | .ident name => name
  | .sampler unit => samplerName unit
  | .number x => numberText x
  | .call f args => f.name ++ "(" ++ String.intercalate ", " (Expr.renderAll args) ++ ")"
  | .binary op a b => a.render ++ op.text ++ b.render
  | .bracket e => "(" ++ e.render ++ ")"
  | .field e letters => e.render ++ "." ++ letters
  | .element m column row => m.render ++ s!"[{column}][{row}]"
  | .blank => ""

def Expr.renderAll : List Expr → List String
  | [] => []
  | e :: es => e.render :: Expr.renderAll es

end

namespace Expr

def zero : Expr := .number .zero

def one : Expr := .number .one

def call1 (f : Func) (a : Expr) : Expr := .call f [a]

def call2 (f : Func) (a b : Expr) : Expr := .call f [a, b]

def chain (op : Op) : List Expr → Expr
  | [] => .blank
  | e :: es => es.foldl (.binary op) e

end Expr

end ShaderGraph.Glsl
