import ShaderGraph.Shape

namespace ShaderGraph

inductive Kind where
  | time | position | normal | viewDirection | fresnel | mvpMatrix | uv
  | float | vector2 | vector3 | vector4 | matrix4
  | add | subtract | multiply | divide
  | abs | cos | sin | tan | radians | degrees | negate | reciprocal | sqrt | trunc
  | round | ceil | floor | fract | saturate | exp2 | oneMinus
  | normalize | length | dot | cross | distance | project | reject | halfDirection | desaturate
  | power | posterize | step | max | min | lerp | smoothstep | append
  | transpose | matrixMultiply
  | textureSample | vertexColor
  | vertexOutput | fragmentOutput
  deriving DecidableEq, Repr

inductive Family where
  | environment | literal | arithmetic | operator | sink
  deriving DecidableEq, Repr

/-- What must be connected before a node has a value: nothing, some slot, or the first `n` slots. -/
inductive Requirement where
  | nothing
  | anySlot
  | leading (n : Nat)
  deriving DecidableEq, Repr

namespace Kind

def all : List Kind := [
  .time, .position, .normal, .viewDirection, .fresnel, .mvpMatrix, .uv, .float, .vector2, .vector3,
  .vector4, .matrix4, .add, .subtract, .multiply, .divide, .abs, .cos, .sin, .tan, .radians,
  .degrees, .negate, .reciprocal, .sqrt, .trunc, .round, .ceil, .floor, .fract, .saturate, .exp2,
  .oneMinus, .normalize, .length, .dot, .cross, .distance, .project, .reject, .halfDirection,
  .desaturate, .power, .posterize, .step, .max, .min, .lerp, .smoothstep, .append, .transpose,
  .matrixMultiply, .textureSample, .vertexColor, .vertexOutput, .fragmentOutput]

def code : Kind → Nat
  | time => 0 | position => 1 | normal => 2 | viewDirection => 3 | fresnel => 4 | mvpMatrix => 5
  | uv => 6
  | float => 10 | vector2 => 11 | vector3 => 12 | vector4 => 13 | matrix4 => 14
  | add => 20 | subtract => 21 | multiply => 22 | divide => 23
  | abs => 30 | cos => 31 | sin => 32 | tan => 33 | radians => 34 | degrees => 35 | negate => 36
  | reciprocal => 37 | sqrt => 38 | trunc => 39
  | round => 40 | ceil => 41 | floor => 42 | fract => 43 | saturate => 44 | exp2 => 45
  | oneMinus => 46
  | normalize => 50 | length => 51 | dot => 52 | cross => 53 | distance => 54 | project => 55
  | reject => 56 | halfDirection => 57 | desaturate => 58
  | power => 60 | posterize => 61 | step => 62 | max => 63 | min => 64 | lerp => 65
  | smoothstep => 66 | append => 67
  | transpose => 70 | matrixMultiply => 71
  | textureSample => 80 | vertexColor => 81
  | vertexOutput => 90 | fragmentOutput => 91

def ofCode? (n : Nat) : Option Kind := all.find? fun k => k.code = n

def name : Kind → String
  | time => "Time"
  | position => "Position"
  | normal => "Normal"
  | viewDirection => "ViewDirection"
  | fresnel => "Fresnel"
  | mvpMatrix => "MvpMatrix"
  | uv => "Uv"
  | float => "Float"
  | vector2 => "Vector2"
  | vector3 => "Vector3"
  | vector4 => "Vector4"
  | matrix4 => "Matrix4"
  | add => "Add"
  | subtract => "Subtract"
  | multiply => "Multiply"
  | divide => "Divide"
  | abs => "Abs"
  | cos => "Cos"
  | sin => "Sin"
  | tan => "Tan"
  | radians => "Radians"
  | degrees => "Degrees"
  | negate => "Negate"
  | reciprocal => "Reciprocal"
  | sqrt => "Sqrt"
  | trunc => "Trunc"
  | round => "Round"
  | ceil => "Ceil"
  | floor => "Floor"
  | fract => "Fract"
  | saturate => "Saturate"
  | exp2 => "Exp2"
  | oneMinus => "OneMinus"
  | normalize => "Normalize"
  | length => "Length"
  | dot => "Dot"
  | cross => "Cross"
  | distance => "Distance"
  | project => "Project"
  | reject => "Reject"
  | halfDirection => "HalfDirection"
  | desaturate => "Desaturate"
  | power => "Power"
  | posterize => "Posterize"
  | step => "Step"
  | max => "Max"
  | min => "Min"
  | lerp => "Lerp"
  | smoothstep => "Smoothstep"
  | append => "Append"
  | transpose => "Transpose"
  | matrixMultiply => "MatrixMultiply"
  | textureSample => "TextureSample"
  | vertexColor => "VertexColor"
  | vertexOutput => "VertexOutput"
  | fragmentOutput => "FragmentOutput"

def ofName? (s : String) : Option Kind := all.find? fun k => k.name = s

def label : Kind → String
  | viewDirection => "View Direction"
  | mvpMatrix => "MVP Matrix"
  | uv => "UV"
  | abs => "Absolute"
  | cos => "Cosine"
  | sin => "Sine"
  | tan => "Tangent"
  | radians => "Degrees to Radians"
  | degrees => "Radians to Degrees"
  | sqrt => "Square Root"
  | trunc => "Truncate"
  | ceil => "Ceiling"
  | fract => "Fraction"
  | oneMinus => "One Minus"
  | dot => "Dot Product"
  | cross => "Cross Product"
  | project => "Projection"
  | reject => "Rejection"
  | halfDirection => "Half Direction"
  | max => "Maximum"
  | min => "Minimum"
  | matrixMultiply => "Matrix Multiply"
  | textureSample => "Texture Sample"
  | vertexColor => "Vertex Color"
  | vertexOutput => "Vertex Output"
  | fragmentOutput => "Fragment Output"
  | k => k.name

/-- Codes come in blocks of ten, one or more to a family. -/
def family (k : Kind) : Family :=
  match k.code / 10 with
  | 0 => .environment
  | 1 => .literal
  | 2 => .arithmetic
  | 9 => .sink
  | _ => .operator

def isLiteral (k : Kind) : Bool := k.family = .literal

def isSink (k : Kind) : Bool := k.family = .sink

def isVariadic : Kind → Bool
  | add | subtract | multiply | divide | max | min | append => true
  | _ => false

def requirement (k : Kind) : Requirement :=
  if k.isVariadic then .anySlot
  else match k with
    | dot | cross | distance | project | reject | halfDirection | desaturate | power | posterize
    | step | matrixMultiply => .leading 2
    | lerp | smoothstep => .leading 3
    | textureSample | vertexColor => .nothing
    | _ => if k.family = .operator then .leading 1 else .nothing

/-- The number of input slots, unless a node narrows it. -/
def inputLimit (k : Kind) : Nat :=
  if k.isVariadic then 4
  else match k with
    | textureSample => 3
    | vertexColor | vertexOutput | fragmentOutput => 1
    | _ => match k.requirement with
      | .leading n => n
      | _ => 0

/-- The shape of every source, literal and sink of a kind; operators take theirs from their inputs.
-/
def naturalShape : Kind → Shape
  | time | fresnel | float => .scalar
  | uv | vector2 => .vec2
  | position | normal | viewDirection | vector3 => .vec3
  | vector4 | vertexOutput | fragmentOutput => .vec4
  | mvpMatrix | matrix4 => .mat4
  | _ => .empty

end Kind

end ShaderGraph
