import ShaderGraph.Channel
import ShaderGraph.Graph.Basic
import ShaderGraph.Graph.Walk
import ShaderGraph.Scalar.Elementary
import ShaderGraph.Value.Algebra

namespace ShaderGraph

namespace Scalar

def halfTurn : Scalar := ofUnits false 64 (pi 64)

def radians (x : Scalar) : Scalar := x * (halfTurn / ofNat 180)

def degrees (x : Scalar) : Scalar := x * nearest false (180 * Nat.pow 2 64) (pi 64).toNat

def reciprocal (x : Scalar) : Scalar := one / x

def fract (x : Scalar) : Scalar := x - floor x

def oneMinus (x : Scalar) : Scalar := one - x

def posterize (x levels : Scalar) : Scalar := floor (x * levels) / levels

/-- One up to and at the threshold, zero past it. -/
def step (x threshold : Scalar) : Scalar := if x ≤ threshold then one else zero

end Scalar

namespace Kind

def unary? : Kind → Option (Scalar → Scalar)
  | .abs => some Float32.abs
  | .cos => some Scalar.cos
  | .sin => some Scalar.sin
  | .tan => some Scalar.tan
  | .radians => some Scalar.radians
  | .degrees => some Scalar.degrees
  | .negate => some fun x => -x
  | .reciprocal => some Scalar.reciprocal
  | .sqrt => some Float32.sqrt
  | .trunc => some Scalar.trunc
  | .round => some Scalar.round
  | .ceil => some Scalar.ceil
  | .floor => some Scalar.floor
  | .fract => some Scalar.fract
  | .saturate => some Scalar.saturate
  | .exp2 => some Scalar.exp2
  | .oneMinus => some Scalar.oneMinus
  | _ => none

def folded? : Kind → Option (Value → Value → Option Value)
  | .add => some (Value.zip (· + ·))
  | .subtract => some (Value.zip (· - ·))
  | .multiply => some Value.multiply
  | .divide => some (Value.zip (· / ·))
  | .max => some (Value.zip Scalar.maximum)
  | .min => some (Value.zip Scalar.minimum)
  | _ => none

end Kind

def foldValues (f : Value → Value → Option Value) : List Value → Option Value
  | [] => none
  | v :: vs => vs.foldlM f v

def Requirement.isMet (r : Requirement) (operands : Slots Value) : Bool :=
  match r with
  | .nothing => true
  | .anySlot => !operands.filled.isEmpty && operands.filled.all (!·.isEmpty)
  | .leading n => (List.range n).all fun i => (operands.at? i).any (!·.isEmpty)

/-- The value of an operator of fixed arity; nothing when the sizes do not go together. -/
def operate (kind : Kind) (operands : Slots Value) : Option Value :=
  let a := (operands.at? 0).getD .empty
  let b := (operands.at? 1).getD .empty
  let c := (operands.at? 2).getD .empty
  let paired (f : Option Value) : Option Value := if a.size = b.size then f else none
  match kind with
  | .append => Value.concat operands.filled
  | .normalize => some a.normalize
  | .length => some (.scalar a.norm)
  | .dot => paired (some (.scalar (a.dot b)))
  | .distance => paired ((Value.zip (· - ·) a b).map fun v => .scalar v.norm)
  | .cross => if a.size = 3 ∧ b.size = 3 then some (a.cross b) else none
  | .project => paired (some (a.project b))
  | .reject => paired (Value.zip (· - ·) a (a.project b))
  | .halfDirection => paired ((Value.zip (· + ·) a.normalize b.normalize).map Value.normalize)
  | .desaturate => some (a.desaturate (b.get 0))
  | .power => Value.zip Scalar.pow a b
  | .posterize => Value.zip Scalar.posterize a b
  | .step => Value.zip Scalar.step a b
  | .lerp => Value.zip3 Scalar.lerp a b c
  | .smoothstep => Value.zip3 Scalar.smoothstep a b c
  | .transpose => if a.size = 16 then some a.transpose else none
  | .matrixMultiply => if a.size = 16 ∧ b.size = 16 then some (a.matMul b) else none
  | .textureSample => some (.zero (Channel.ofInput (operands.at? 1)).shape)
  | .vertexColor => some (.zero (Channel.ofInput (operands.at? 0)).shape)
  | _ => none

def sinkValue (kind : Kind) : Option Value → Value
  | some v => v.widen
  | none => if kind = .fragmentOutput then .vec4 .one .one .one .one else Value.empty.widen

/-- The value of a node; empty when an operand it needs is missing or has none. -/
def evaluate (kind : Kind) (literal : Value) (operands : Slots Value) : Value :=
  if kind.requirement.isMet operands then
    match kind.family with
    | .environment => .zero kind.naturalShape
    | .literal => literal
    | .sink => sinkValue kind (operands.at? 0)
    | _ =>
      match kind.folded?, kind.unary? with
      | some f, _ => (foldValues f operands.filled).getD .empty
      | none, some f => ((operands.at? 0).getD .empty).map f
      | none, none => (operate kind operands).getD .empty
  else .empty

/-- Whether a build stops over the channels that a node is asked for. -/
def Kind.stops (o : Overflow) (kind : Kind) (operands : Slots Value) : Bool :=
  match kind with
  | .textureSample => (Channel.ofInputIn o (operands.at? 1)).isNone
  | .vertexColor => (Channel.ofInputIn o (operands.at? 0)).isNone
  | _ => false

def evaluateIn (o : Overflow) (kind : Kind) (literal : Value) (operands : Slots Value) :
    Option Value :=
  if kind.stops o operands then none else some (evaluate kind literal operands)

inductive Order where
  /-- Producers before consumers. -/
  | topological
  /-- As stored; a consumer stored first reads what its producer held before the pass. -/
  | storage
  deriving DecidableEq, Repr

def Order.arrange (order : Order) (sorted stored : List NodeId) : List NodeId :=
  match order with
  | topological => sorted
  | storage => stored

structure Report where
  evaluated : Nat
  /-- The nodes without a value, in storage order. -/
  invalid : List NodeId
  deriving DecidableEq, Repr

def Report.isClean (r : Report) : Bool := r.invalid.isEmpty

/-- The values of nodes; of two entries for a node the first counts. -/
abbrev Valuation := List (NodeId × Value)

namespace Graph

def ids (g : Graph) : List NodeId := g.nodes.map (·.id)

/-- Every node after its producers, ties in storage order. -/
def topologicalOrder (g : Graph) : Except Cycle (List NodeId) :=
  let links := g.links
  (Walk.visitAll (fun id => (inputsFrom links id).filled) g.nodes.length g.ids).map Walk.postorder

def valuation (g : Graph) : Valuation := g.nodes.map fun n => (n.id, n.output)

def enterValue (g : Graph) (links : List Link) (env : Valuation) (id : NodeId) : Valuation :=
  match g.node? id with
  | none => env
  | some n =>
    (id, evaluate n.kind n.literal ((inputsFrom links id).apply fun i => env.lookup i)) :: env

def refresh (links : List Link) (env : Valuation) (n : Node) : Node :=
  { n with inputs := inputsFrom links n.id, output := (env.lookup n.id).getD n.output }

def recompute (g : Graph) (order : Order) : Except Cycle (Graph × Report) :=
  match g.topologicalOrder with
  | .error c => .error c
  | .ok sorted =>
    let visited := order.arrange sorted g.ids
    let links := g.links
    let env := visited.foldl (g.enterValue links) g.valuation
    let nodes := g.nodes.map (refresh links env)
    .ok ({ g with nodes := nodes },
      ⟨visited.length, (nodes.filter fun n => !n.isValid).map (·.id)⟩)

def enterValueIn (o : Overflow) (g : Graph) (links : List Link) (env : Valuation) (id : NodeId) :
    Option Valuation :=
  match g.node? id with
  | none => some env
  | some n =>
    (evaluateIn o n.kind n.literal ((inputsFrom links id).apply fun i => env.lookup i)).map
      fun v => (id, v) :: env

/-- As `recompute`, by a build that may stop in the middle of the pass. -/
def recomputeIn (o : Overflow) (g : Graph) (order : Order) :
    Option (Except Cycle (Graph × Report)) :=
  match g.topologicalOrder with
  | .error c => some (.error c)
  | .ok sorted => do
    let visited := order.arrange sorted g.ids
    let links := g.links
    let env ← visited.foldlM (g.enterValueIn o links) g.valuation
    let nodes := g.nodes.map (refresh links env)
    return .ok ({ g with nodes := nodes },
      ⟨visited.length, (nodes.filter fun n => !n.isValid).map (·.id)⟩)

end Graph

end ShaderGraph
