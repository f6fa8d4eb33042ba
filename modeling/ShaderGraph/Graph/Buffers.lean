import ShaderGraph.Command
import ShaderGraph.Value.Buffer

namespace ShaderGraph

namespace Buffer

def isMet (r : Requirement) (operands : Slots Buffer) : Bool :=
  match r with
  | .nothing => true
  | .anySlot => !operands.filled.isEmpty && operands.filled.all (!·.isEmpty)
  | .leading n => (List.range n).all fun i => (operands.at? i).any (!·.isEmpty)

def folded? : Kind → Option (Buffer → Buffer → Option Buffer)
  | .add => some (zip (· + ·))
  | .subtract => some (zip (· - ·))
  | .multiply => some multiply
  | .divide => some (zip (· / ·))
  | .max => some (zip Scalar.maximum)
  | .min => some (zip Scalar.minimum)
  | _ => none

def foldAll (f : Buffer → Buffer → Option Buffer) : List Buffer → Option Buffer
  | [] => none
  | b :: bs => bs.foldlM f b

def channel : Option Buffer → Channel
  | some b => .ofMode (b.get 0)
  | none => .rgba

def operate (kind : Kind) (operands : Slots Buffer) : Option Buffer :=
  let a := (operands.at? 0).getD .empty
  let b := (operands.at? 1).getD .empty
  let c := (operands.at? 2).getD .empty
  let paired (f : Option Buffer) : Option Buffer := if a.size = b.size then f else none
  match kind with
  | .append => concat operands.filled
  | .normalize => some a.normalize
  | .length => some (scalar a.norm)
  | .dot => paired (some (scalar (a.dot b)))
  | .distance => paired ((zip (· - ·) a b).map fun v => scalar v.norm)
  | .cross => if a.size = 3 ∧ b.size = 3 then some (a.cross b) else none
  | .project => paired (some (a.project b))
  | .reject => paired (zip (· - ·) a (a.project b))
  | .halfDirection => paired ((zip (· + ·) a.normalize b.normalize).map normalize)
  | .desaturate => some (a.desaturate (b.get 0))
  | .power => zip Scalar.pow a b
  | .posterize => zip Scalar.posterize a b
  | .step => zip Scalar.step a b
  | .lerp => zip3 Scalar.lerp a b c
  | .smoothstep => zip3 Scalar.smoothstep a b c
  | .transpose => if a.size = 16 then some a.transpose else none
  | .matrixMultiply => if a.size = 16 ∧ b.size = 16 then some (a.matMul b) else none
  | .textureSample => some (zeroed (channel (operands.at? 1)).shape)
  | .vertexColor => some (zeroed (channel (operands.at? 0)).shape)
  | _ => none

def sinkValue (kind : Kind) : Option Buffer → Buffer
  | some b => b.widen
  | none =>
    if kind = .fragmentOutput then ofSlice [.one, .one, .one, .one]
    else ofSlice [.zero, .zero, .zero, .one]

def evaluate (kind : Kind) (literal : Buffer) (operands : Slots Buffer) : Buffer :=
  if isMet kind.requirement operands then
    match kind.family with
    | .environment => zeroed kind.naturalShape
    | .literal => literal
    | .sink => sinkValue kind (operands.at? 0)
    | _ =>
      match folded? kind, kind.unary? with
      | some f, _ => (foldAll f operands.filled).getD .empty
      | none, some f => ((operands.at? 0).getD .empty).map f
      | none, none => (operate kind operands).getD .empty
  else .empty

end Buffer

/-- The two buffers of a node. -/
structure Cell where
  output : Buffer
  literal : Buffer

def Buffer.firstLiteral (kind : Kind) : Buffer :=
  if kind = .matrix4 then identity else if kind.isLiteral then zeroed kind.naturalShape else empty

def Cell.ofLiteral (kind : Kind) (literal : Buffer) : Cell where
  output :=
    match kind.family with
    | .literal => literal
    | .environment | .sink => .zeroed kind.naturalShape
    | _ => .empty
  literal := literal

def Cell.create (kind : Kind) : Init → Cell
  | .literal xs => ofLiteral kind (.ofSlice xs)
  | _ => ofLiteral kind (.firstLiteral kind)

abbrev Memory := NodeId → Option Cell

namespace Memory

def put (m : Memory) (id : NodeId) (c : Option Cell) : Memory := fun x => if x = id then c else m x

def new : Memory :=
  put (put (fun _ => none) Graph.vertexSink (Cell.create .vertexOutput .standard))
    Graph.fragmentSink (Cell.create .fragmentOutput .standard)

def apply (g : Graph) (m : Memory) (c : Command) (handle : Handle) : Memory :=
  match c with
  | .createNode kind init =>
    match g.createNode kind init handle with
    | .ok (id, _) => m.put id (Cell.create kind init)
    | .error _ => m
  | .destroyNode id =>
    match g.destroyNode id with
    | .ok _ => m.put id none
    | .error _ => m
  | .setLiteral id xs =>
    match g.node? id with
    | none => m
    | some n =>
      if n.kind.isLiteral then
        match (Buffer.ofSlice? xs).filter (·.shape = n.kind.naturalShape) with
        | some b => m.put id (some ⟨b, b⟩)
        | none => m
      else m
  | _ => m

def settle (g : Graph) (m : Memory) (id : NodeId) : Memory :=
  match g.node? id, m id with
  | some n, some c =>
    let operands := (g.inputsOf id).apply fun i => (m i).map Cell.output
    m.put id (some { c with output := Buffer.evaluate n.kind c.literal operands })
  | _, _ => m

def recompute (g : Graph) (m : Memory) (order : Order) : Memory :=
  match g.topologicalOrder with
  | .error _ => fun id => (m id).map fun c => { c with output := .empty }
  | .ok sorted =>
    let visited := order.arrange sorted g.ids
    visited.foldl (settle g) m

end Memory

end ShaderGraph
