import ShaderGraph.Evaluation
import ShaderGraph.Graph.Edit
import ShaderGraph.SavedGraph.Record

namespace ShaderGraph.SavedGraph

inductive LoadError where
  | record (line : Nat) (cause : RecordError)
  | graph (line : Nat) (cause : GraphError)
  | cycle (cause : Cycle)
  deriving DecidableEq, Repr

def LoadError.message : LoadError → String
  | record line cause => s!"Line {line}: {cause.message}"
  | graph line cause => s!"Line {line}: {cause.message}"
  | cycle cause => cause.message

/-- A graph on its way in: the nodes of the records so far, and whether a link has been seen. -/
structure Loading where
  graph : Graph
  records : List NodeId
  linking : Bool

def NodeRecord.init (r : NodeRecord) : Init :=
  if r.kind.isLiteral then .literal (r.data.take r.kind.naturalShape.size)
  else if r.kind.isVariadic && r.limit ≠ r.kind.inputLimit then .arity r.limit
  else .standard

def setParameters (g : Graph) (id : NodeId) (r : NodeRecord) : Except GraphError Graph := do
  let g ← (if r.kind.isLiteral then g.setProperty id r.property else pure g)
  let threshold := r.data.headD .zero
  (if r.kind = .textureSample ∧ .zero < threshold then g.setAlphaClip id (some threshold)
    else pure g)

/-- The node of a record. A stage output is the one that is already there. -/
def placeNode (g : Graph) (r : NodeRecord) (handle : Handle) :
    Except GraphError (NodeId × Graph) :=
  match r.kind with
  | .vertexOutput => pure (Graph.vertexSink, g)
  | .fragmentOutput => pure (Graph.fragmentSink, g)
  | _ => do
    let (id, g) ← g.createNode r.kind r.init handle
    let g ← setParameters g id r
    return (id, g)

def addNode (g : Graph) (r : NodeRecord) (handle : Handle) :
    Except GraphError (NodeId × Graph) := do
  let (id, g) ← placeNode g r handle
  let g ← g.setPosition id r.position
  return (id, g)

def evaluated (g : Graph) : Except LoadError Graph :=
  match g.recompute .topological with
  | .ok (g, _) => .ok g
  | .error c => .error (.cycle c)

/-- Adds the record of one line. A node takes the handle of its place in storage order. -/
def Loading.addLine (handles : Nat → Handle) (l : Loading) (line : List Char × Nat) :
    Except LoadError Loading := do
  let (text, number) := line
  match Text.trim text with
  | [] => return l
  | '?' :: rest => do
    let g ← (if l.linking then pure l.graph else evaluated l.graph)
    let r ← (readEdge l.records.length rest).mapError (.record number)
    let (_, g) ← (g.connect (l.records.getD r.source 0) (l.records.getD r.target 0) r.slot).mapError
      (.graph number)
    let g ← evaluated g
    return { l with graph := g, linking := true }
  | record =>
    if l.linking then throw (.record number .nodeAfterEdges)
    else
      let r ← (readNode record).mapError (.record number)
      let (id, g) ← (addNode l.graph r (handles l.graph.nodes.length)).mapError (.graph number)
      return { l with graph := g, records := l.records ++ [id] }

/-- The graph of a saved text. The `n`th node stored gets the handle `handles n`. -/
def load (handles : Nat → Handle) (text : String) : Except LoadError Graph := do
  let lines := (Text.splitOn '\n' text.toList).zipIdx 1
  let l ← lines.foldlM (Loading.addLine handles) ⟨Graph.new (handles 0) (handles 1), [], false⟩
  if l.linking then return l.graph else evaluated l.graph

end ShaderGraph.SavedGraph
