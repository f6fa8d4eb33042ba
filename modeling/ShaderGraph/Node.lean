import ShaderGraph.Kind
import ShaderGraph.Slots
import ShaderGraph.Value.Basic

namespace ShaderGraph

/-- Numbers a node among those alive; used again after the node is gone. -/
abbrev NodeId := Nat

/-- Names a node for good, whatever becomes of its id. -/
structure Handle where
  token : Nat
  deriving DecidableEq, Repr

inductive Init where
  | standard
  | literal (components : List Scalar)
  | arity (n : Nat)
  deriving DecidableEq

inductive InitError where
  | literal (kind : Kind) (size : Nat)
  | arity (kind : Kind) (n : Nat)
  deriving DecidableEq, Repr

def InitError.message : InitError → String
  | literal kind size => s!"{kind.label} cannot hold a literal of {size} components"
  | arity kind n => s!"{kind.label} cannot take an arity of {n}"

structure Node where
  id : NodeId
  handle : Handle
  kind : Kind
  /-- The producers by slot, as of the last evaluation. -/
  inputs : Slots NodeId
  limit : Nat
  output : Value
  /-- Empty unless the kind is a literal one. -/
  literal : Value
  /-- Whether a literal becomes a uniform rather than a constant. -/
  property : Bool
  /-- Fragments sampled with less alpha than this are discarded. -/
  alphaClip : Option Scalar
  position : Scalar × Scalar
  deriving DecidableEq

namespace Kind

def defaultLiteral (k : Kind) : Value :=
  if k = .matrix4 then .identity else if k.isLiteral then .zero k.naturalShape else .empty

def firstOutput (k : Kind) (literal : Value) : Value :=
  match k.family with
  | .literal => literal
  | .environment | .sink => .zero k.naturalShape
  | _ => .empty

end Kind

namespace Node

def bare (id : NodeId) (handle : Handle) (kind : Kind) (literal : Value) (limit : Nat) : Node where
  id := id
  handle := handle
  kind := kind
  inputs := .vacant
  limit := limit
  output := kind.firstOutput literal
  literal := literal
  property := false
  alphaClip := none
  position := (.zero, .zero)

/-- A literal takes components of its own number, a variadic kind an arity of two to four. -/
def create (id : NodeId) (handle : Handle) (kind : Kind) : Init → Except InitError Node
  | .standard => .ok (bare id handle kind kind.defaultLiteral kind.inputLimit)
  | .literal xs =>
    if h : kind.isLiteral ∧ xs.length = kind.naturalShape.size then
      .ok (bare id handle kind ⟨kind.naturalShape, xs, h.2⟩ kind.inputLimit)
    else .error (.literal kind xs.length)
  | .arity n =>
    if kind.isVariadic ∧ 2 ≤ n ∧ n ≤ 4 then .ok (bare id handle kind .empty n)
    else .error (.arity kind n)

def isValid (n : Node) : Bool := !n.output.isEmpty

end Node

end ShaderGraph
