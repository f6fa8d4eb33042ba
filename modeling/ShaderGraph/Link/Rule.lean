import ShaderGraph.Kind
import ShaderGraph.Slots

namespace ShaderGraph

inductive Expectation where
  | exactly (n : Nat)
  | between (low high : Nat)
  | atMost (n : Nat)
  | multipliable (n : Nat)
  | scalarOr (n : Nat)
  deriving DecidableEq, Repr

/-- Whether values of these sizes have a product: equal sizes, a scalar on either side, or a matrix
beside a vector of four. -/
def multipliable (a b : Nat) : Bool :=
  a = b || a = 1 || b = 1 || (a = 4 && b = 16) || (a = 16 && b = 4)

namespace Expectation

def admits : Expectation → Nat → Bool
  | exactly n, size => size = n
  | between low high, size => low ≤ size && size ≤ high
  | atMost n, size => size ≤ n
  | multipliable n, size => ShaderGraph.multipliable n size
  | scalarOr n, size => size = 1 || size = n

def message : Expectation → String
  | exactly n => s!"{n}"
  | between low high => s!"{low}..={high}"
  | atMost n => s!"at most {n}"
  | multipliable n => s!"{n}, 1 or a mat4/vec4 pairing with {n}"
  | scalarOr n => s!"1 or {n}"

end Expectation

structure Prospect where
  kind : Kind
  slot : Nat
  /-- The size the node puts out now. -/
  size : Nat
  /-- The sizes in the other slots. -/
  others : Slots Nat
  deriving DecidableEq

namespace Prospect

/-- The size of the first operand that has a value. -/
def established (p : Prospect) : Option Nat := p.others.filled.find? (0 < ·)

def sibling (p : Prospect) : List Expectation :=
  match p.others.at? (if p.slot = 0 then 1 else 0) with
  | some n => if 0 < n then [.exactly n] else []
  | none => []

/-- Operators of one operand keep the size they were first fed. -/
def keepSize (p : Prospect) : List Expectation := if p.size = 0 then [] else [.exactly p.size]

/-- What is expected of the operand, in the order it is checked. -/
def expectations (p : Prospect) : List Expectation :=
  match p.kind with
  | .add | .subtract | .divide | .max | .min =>
    match p.established with
    | some n => [.exactly n]
    | none => []
  | .multiply =>
    match if 0 < p.size then some p.size else p.established with
    | some n => [.multipliable n]
    | none => []
  | .append => [.atMost (4 - p.others.filled.foldr (· + ·) 0)]
  | .normalize | .length => [.between 2 4]
  | .dot | .distance | .project | .reject | .halfDirection => .between 2 4 :: p.sibling
  | .cross => .exactly 3 :: p.sibling
  | .power | .step | .posterize => if p.slot = 1 then [.exactly 1] else p.keepSize
  | .desaturate => if p.slot = 0 then [.between 3 4] else [.exactly 1]
  | .lerp | .smoothstep =>
    .between 1 4 :: match p.others.filled.find? (1 < ·) with
      | some n => [.scalarOr n]
      | none => []
  | .textureSample => if p.slot = 2 then [.exactly 2] else [.exactly 1]
  | .vertexColor => [.exactly 1]
  | .transpose | .matrixMultiply => [.exactly 16]
  | .vertexOutput | .fragmentOutput => [.atMost 4]
  | _ => p.keepSize

def refusal? (p : Prospect) (size : Nat) : Option Expectation :=
  p.expectations.find? fun e => !e.admits size

end Prospect

end ShaderGraph
