import ShaderGraph.Command

namespace ShaderGraph

/-- How steps come to an early end: they are refused, or the program stops. -/
inductive Halt (ε : Type) where
  | refused (cause : ε)
  | stopped
  deriving DecidableEq, Repr

def Halt.map {ε δ : Type} (f : ε → δ) : Halt ε → Halt δ
  | refused cause => .refused (f cause)
  | stopped => .stopped

namespace Graph

def rebuildInputs (g : Graph) : Graph :=
  { g with nodes := g.nodes.map fun n => { n with inputs := g.inputsOf n.id } }

def clearOutputs (g : Graph) : Graph :=
  { g with nodes := g.nodes.map fun n => { n with output := .empty } }

def evaluateNode (g : Graph) (id : NodeId) : Value :=
  match g.node? id with
  | none => .empty
  | some n => evaluate n.kind n.literal (n.inputs.apply g.output?)

def evaluateNodeIn (o : Overflow) (g : Graph) (id : NodeId) : Option Value :=
  match g.node? id with
  | none => some .empty
  | some n => evaluateIn o n.kind n.literal (n.inputs.apply g.output?)

def settle (g : Graph) (id : NodeId) : Graph :=
  g.updateNode id fun n => { n with output := g.evaluateNode id }

namespace InPlace

abbrev Edit (α : Type) := EStateM GraphError Graph α

def read {α : Type} (f : Graph → Except GraphError α) : Edit α := do
  match f (← get) with
  | .ok a => return a
  | .error e => throw e

def node (id : NodeId) : Edit Node := read fun g =>
  match g.node? id with
  | none => .error (.nodeNotFound id)
  | some n => .ok n

def takeNodeId : Edit NodeId := do
  let (id, pool) ← read fun g =>
    match g.nodeIds.allocate? with
    | none => .error (.exhausted .node g.nodeIds.capacity)
    | some r => .ok r
  modify fun g => { g with nodeIds := pool }
  return id

def giveNodeId (id : NodeId) : Edit Unit :=
  modify fun g => { g with nodeIds := g.nodeIds.release id }

def storeNode (n : Node) : Edit Unit := modify fun g => { g with nodes := g.nodes ++ [n] }

/-- The id is taken before anything is known about what the node is given. -/
def createNode (kind : Kind) (init : Init) (handle : Handle) : Edit NodeId :=
  if kind.isSink then throw (.sinkNode kind)
  else do
    let id ← takeNodeId
    match Node.create id handle kind init with
    | .error e => do
      giveNodeId id
      throw (.init e)
    | .ok n => do
      storeNode n
      return id

def removeNode (id : NodeId) : Edit Node := do
  let n ← node id
  modify fun g => { g with nodes := g.nodes.filter (·.id ≠ id) }
  return n

def removeEdge (id : EdgeId) : Edit Unit :=
  modify fun g => { g with edges := g.edges.filter (·.id ≠ id), edgeIds := g.edgeIds.release id }

/-- The edges go one by one, then the node. -/
def destroyNode (id : NodeId) : Edit Node := do
  let n ← node id
  if n.kind.isSink then throw (.sinkNode n.kind)
  else do
    let doomed := (← get).edges.filter (·.touches id)
    doomed.forM fun e => removeEdge e.id
    let n ← removeNode id
    giveNodeId id
    return n

def takeEdgeId : Edit EdgeId := do
  let (id, pool) ← read allocateEdge
  modify fun g => { g with edgeIds := pool }
  return id

def storeEdge (e : Edge) : Edit Unit := modify fun g => { g with edges := g.edges ++ [e] }

def beginEdge (source : NodeId) : Edit EdgeId := do
  let n ← node source
  if n.kind.isSink then throw (.link (.sinkSource source))
  else do
    let id ← takeEdgeId
    storeEdge ⟨id, source, none⟩
    return id

def checkLink (source target : NodeId) (request : Option Nat) : Edit Nat :=
  read fun g => (g.checkLink source target request).mapError .link

def removeLink (source target : NodeId) : Edit Unit := do
  match (← get).edgeBetween? source target with
  | none => return ()
  | some e => removeEdge e.id

def finishEdge (id : EdgeId) (target : NodeId) (request : Option Nat) : Edit Nat := do
  let edge ← read (·.pendingEdge id)
  let slot ← checkLink edge.source target request
  removeLink edge.source target
  let land (e : Edge) : Edge := if e.id = id then { e with target := some ⟨target, slot⟩ } else e
  modify fun g => { g with edges := g.edges.map land }
  return slot

def cancelEdge (id : EdgeId) : Edit Unit := do
  let _ ← read (·.pendingEdge id)
  removeEdge id

def destroyEdge (id : EdgeId) : Edit Edge := do
  let e ← read fun g =>
    match g.edge? id with
    | none => .error (.edgeNotFound id)
    | some e => .ok e
  removeEdge id
  return e

/-- The link that gives way is gone before there is an id for the new one. -/
def connect (source target : NodeId) (request : Option Nat) : Edit EdgeId := do
  let slot ← checkLink source target request
  removeLink source target
  let id ← takeEdgeId
  storeEdge ⟨id, source, some ⟨target, slot⟩⟩
  return id

def parameterNode (id : NodeId) (parameter : Parameter) (has : Kind → Bool) : Edit Node := do
  let n ← node id
  if has n.kind then return n else throw (.unsupportedParameter id n.kind parameter)

def writeNode (id : NodeId) (n : Node) : Edit Unit := modify (·.updateNode id fun _ => n)

def setLiteral (id : NodeId) (xs : List Scalar) : Edit Unit := do
  let n ← parameterNode id .literal Kind.isLiteral
  if h : xs.length = n.kind.naturalShape.size then
    let v : Value := ⟨n.kind.naturalShape, xs, h⟩
    writeNode id { n with literal := v, output := v }
  else throw (.init (.literal n.kind xs.length))

def setProperty (id : NodeId) (property : Bool) : Edit Unit := do
  let n ← parameterNode id .property Kind.isLiteral
  writeNode id { n with property := property }

def setAlphaClip (id : NodeId) (threshold : Option Scalar) : Edit Unit := do
  let n ← parameterNode id .alphaClip (· = .textureSample)
  writeNode id { n with alphaClip := threshold }

def setPosition (id : NodeId) (position : Scalar × Scalar) : Edit Unit := do
  let _ ← node id
  modify (·.updateNode id fun n => { n with position := position })

def apply (c : Command) (handle : Handle) : Edit Outcome :=
  match c with
  | .createNode kind init => do return .node (← createNode kind init handle)
  | .destroyNode node => do
    let _ ← destroyNode node
    return .updated
  | .beginLink source => do return .connection (← beginEdge source)
  | .finishLink edge target slot => do
    let _ ← finishEdge edge target slot
    return .connection edge
  | .cancelLink edge => do
    cancelEdge edge
    return .updated
  | .destroyLink edge => do
    let _ ← destroyEdge edge
    return .updated
  | .connect source target slot => do return .connection (← connect source target slot)
  | .setLiteral node value => do
    setLiteral node value
    return .updated
  | .setProperty node property => do
    setProperty node property
    return .updated
  | .setAlphaClip node threshold => do
    setAlphaClip node threshold
    return .updated
  | .setPosition node position => do
    setPosition node position
    return .updated

/-- One pass over the whole graph. Where it finds a cycle, no node keeps a value. -/
def recomputeWith {ε : Type} (refuse : Cycle → ε) (settle : NodeId → EStateM ε Graph Unit)
    (order : Order) : EStateM ε Graph Report := do
  modify rebuildInputs
  let g ← get
  match g.topologicalOrder with
  | .error c => do
    modify clearOutputs
    throw (refuse c)
  | .ok sorted => do
    let visited := order.arrange sorted g.ids
    visited.forM settle
    let g ← get
    return ⟨visited.length, (g.nodes.filter fun n => !n.isValid).map (·.id)⟩

def recompute : Order → EStateM Cycle Graph Report :=
  recomputeWith (fun c => c) fun id => modify (·.settle id)

def settleIn (o : Overflow) (id : NodeId) : EStateM (Halt Cycle) Graph Unit := do
  match (← get).evaluateNodeIn o id with
  | none => throw .stopped
  | some v => modify (·.updateNode id fun n => { n with output := v })

def recomputeIn (o : Overflow) : Order → EStateM (Halt Cycle) Graph Report :=
  recomputeWith .refused (settleIn o)

end InPlace

end Graph

end ShaderGraph
