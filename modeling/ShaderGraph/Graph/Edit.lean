import ShaderGraph.Link.Check

namespace ShaderGraph

inductive Parameter where
  | literal
  | property
  | alphaClip
  deriving DecidableEq, Repr

def Parameter.label : Parameter → String
  | literal => "literal"
  | property => "property"
  | alphaClip => "alpha clip"

inductive Resource where
  | node
  | connection
  deriving DecidableEq, Repr

def Resource.label : Resource → String
  | node => "node"
  | connection => "connection"

inductive GraphError where
  | nodeNotFound (id : NodeId)
  | edgeNotFound (id : EdgeId)
  | sinkNode (kind : Kind)
  | notPending (id : EdgeId)
  | unsupportedParameter (id : NodeId) (kind : Kind) (parameter : Parameter)
  | exhausted (resource : Resource) (capacity : Nat)
  | init (cause : InitError)
  | link (cause : LinkError)
  deriving DecidableEq, Repr

def GraphError.message : GraphError → String
  | nodeNotFound id => s!"Node not found: {id}"
  | edgeNotFound id => s!"Edge not found: {id}"
  | sinkNode kind => s!"{kind.label} nodes are fixed and cannot be created or destroyed"
  | notPending id => s!"Edge {id} is not pending"
  | unsupportedParameter id kind parameter =>
    s!"Node {id} ({kind.label}) has no {parameter.label} parameter"
  | exhausted resource capacity => s!"No free {resource.label} id (capacity {capacity})"
  | init cause => cause.message
  | link cause => cause.message

namespace Graph

/-- A new node with the lowest free id. Stage outputs cannot be made. -/
def createNode (g : Graph) (kind : Kind) (init : Init) (handle : Handle) :
    Except GraphError (NodeId × Graph) :=
  if kind.isSink then .error (.sinkNode kind)
  else match g.nodeIds.allocate? with
    | none => .error (.exhausted .node g.nodeIds.capacity)
    | some (id, pool) =>
      match Node.create id handle kind init with
      | .error e => .error (.init e)
      | .ok n => .ok (id, { g with nodes := g.nodes ++ [n], nodeIds := pool })

/-- Drops the edges a test picks and takes their ids back. -/
def dropEdges (g : Graph) (doomed : Edge → Bool) : Graph :=
  { g with
    edges := g.edges.filter fun e => !doomed e
    edgeIds := (g.edges.filter doomed).foldl (fun pool e => pool.release e.id) g.edgeIds }

def destroyNode (g : Graph) (id : NodeId) : Except GraphError (Node × Graph) :=
  match g.node? id with
  | none => .error (.nodeNotFound id)
  | some n =>
    if n.kind.isSink then .error (.sinkNode n.kind)
    else
      let g := g.dropEdges (·.touches id)
      .ok (n, { g with nodes := g.nodes.filter (·.id ≠ id), nodeIds := g.nodeIds.release id })

def allocateEdge (g : Graph) : Except GraphError (EdgeId × IdPool) :=
  match g.edgeIds.allocate? with
  | none => .error (.exhausted .connection g.edgeIds.capacity)
  | some r => .ok r

/-- Starts an edge whose target is yet to be found. -/
def beginEdge (g : Graph) (source : NodeId) : Except GraphError (EdgeId × Graph) :=
  match g.node? source with
  | none => .error (.nodeNotFound source)
  | some n =>
    if n.kind.isSink then .error (.link (.sinkSource source))
    else match g.allocateEdge with
      | .error e => .error e
      | .ok (id, pool) =>
        .ok (id, { g with edges := g.edges ++ [⟨id, source, none⟩], edgeIds := pool })

def pendingEdge (g : Graph) (id : EdgeId) : Except GraphError Edge :=
  match g.edge? id with
  | none => .error (.edgeNotFound id)
  | some e => if e.isPending then .ok e else .error (.notPending id)

/-- Leads a pending edge into a node. A link that already joins the two gives way. -/
def finishEdge (g : Graph) (id : EdgeId) (target : NodeId) (request : Option Nat) :
    Except GraphError (Nat × Graph) :=
  match g.pendingEdge id with
  | .error e => .error e
  | .ok edge =>
    match g.checkLink edge.source target request with
    | .error e => .error (.link e)
    | .ok slot =>
      let g := g.dropEdges (·.joins edge.source target)
      let land (e : Edge) : Edge :=
        if e.id = id then { e with target := some ⟨target, slot⟩ } else e
      .ok (slot, { g with edges := g.edges.map land })

def cancelEdge (g : Graph) (id : EdgeId) : Except GraphError Graph :=
  match g.pendingEdge id with
  | .error e => .error e
  | .ok _ => .ok (g.dropEdges (·.id = id))

def destroyEdge (g : Graph) (id : EdgeId) : Except GraphError (Edge × Graph) :=
  match g.edge? id with
  | none => .error (.edgeNotFound id)
  | some e => .ok (e, g.dropEdges (·.id = id))

/-- Checks and makes an edge in one step. A link that already joins the two gives its id back first,
so a replacement never runs out of ids. -/
def connect (g : Graph) (source target : NodeId) (request : Option Nat) :
    Except GraphError (EdgeId × Graph) :=
  match g.checkLink source target request with
  | .error e => .error (.link e)
  | .ok slot =>
    let g := g.dropEdges (·.joins source target)
    match g.allocateEdge with
    | .error e => .error e
    | .ok (id, pool) =>
      .ok (id, { g with edges := g.edges ++ [⟨id, source, some ⟨target, slot⟩⟩], edgeIds := pool })

def setParameter (g : Graph) (id : NodeId) (parameter : Parameter) (has : Kind → Bool)
    (f : Node → Except GraphError Node) : Except GraphError Graph :=
  match g.node? id with
  | none => .error (.nodeNotFound id)
  | some n =>
    if has n.kind then
      match f n with
      | .error e => .error e
      | .ok m => .ok (g.updateNode id fun _ => m)
    else .error (.unsupportedParameter id n.kind parameter)

def setLiteral (g : Graph) (id : NodeId) (xs : List Scalar) : Except GraphError Graph :=
  g.setParameter id .literal Kind.isLiteral fun n =>
    if h : xs.length = n.kind.naturalShape.size then
      let v : Value := ⟨n.kind.naturalShape, xs, h⟩
      .ok { n with literal := v, output := v }
    else .error (.init (.literal n.kind xs.length))

def setProperty (g : Graph) (id : NodeId) (property : Bool) : Except GraphError Graph :=
  g.setParameter id .property Kind.isLiteral fun n => .ok { n with property := property }

def setAlphaClip (g : Graph) (id : NodeId) (threshold : Option Scalar) : Except GraphError Graph :=
  g.setParameter id .alphaClip (· = .textureSample) fun n => .ok { n with alphaClip := threshold }

def setPosition (g : Graph) (id : NodeId) (position : Scalar × Scalar) : Except GraphError Graph :=
  match g.node? id with
  | none => .error (.nodeNotFound id)
  | some _ => .ok (g.updateNode id fun n => { n with position := position })

end Graph

end ShaderGraph
