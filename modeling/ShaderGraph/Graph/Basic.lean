import ShaderGraph.Edge
import ShaderGraph.IdPool

namespace ShaderGraph

structure Graph where
  nodes : List Node
  edges : List Edge
  nodeIds : IdPool
  edgeIds : IdPool
  deriving DecidableEq

namespace Graph

def maxNodes : Nat := 1024

def maxEdges : Nat := 4096

def vertexSink : NodeId := 0

def fragmentSink : NodeId := 1

def sinkPosition (y : Nat) : Scalar × Scalar := (.ofNat 400, .ofNat y)

def sink (id : NodeId) (kind : Kind) (y : Nat) (handle : Handle) : Node :=
  { Node.bare id handle kind .empty kind.inputLimit with position := sinkPosition y }

def new (vertexHandle fragmentHandle : Handle) : Graph where
  nodes := [sink vertexSink .vertexOutput 100 vertexHandle,
    sink fragmentSink .fragmentOutput 300 fragmentHandle]
  edges := []
  nodeIds := { IdPool.new maxNodes with next := 2 }
  edgeIds := IdPool.new maxEdges

def node? (g : Graph) (id : NodeId) : Option Node := g.nodes.find? (·.id = id)

def edge? (g : Graph) (id : EdgeId) : Option Edge := g.edges.find? (·.id = id)

def nodeOf? (g : Graph) (handle : Handle) : Option Node := g.nodes.find? (·.handle = handle)

def edgeBetween? (g : Graph) (source target : NodeId) : Option Edge :=
  g.edges.find? (·.joins source target)

/-- The edges that reached their target, in storage order. -/
def links (g : Graph) : List Link := g.edges.filterMap Edge.link?

def inputsOf (g : Graph) (id : NodeId) : Slots NodeId := inputsFrom g.links id

def updateNode (g : Graph) (id : NodeId) (f : Node → Node) : Graph :=
  { g with nodes := g.nodes.map fun n => if n.id = id then f n else n }

def output? (g : Graph) (id : NodeId) : Option Value := (g.node? id).map (·.output)

end Graph

end ShaderGraph
