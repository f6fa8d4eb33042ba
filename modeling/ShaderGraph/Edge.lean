import ShaderGraph.Node

namespace ShaderGraph

abbrev EdgeId := Nat

structure Socket where
  node : NodeId
  slot : Nat
  deriving DecidableEq, Repr

structure Edge where
  id : EdgeId
  source : NodeId
  /-- Nothing while the edge is pending. -/
  target : Option Socket
  deriving DecidableEq, Repr

/-- An edge that reached its target, apart from its id. -/
structure Link where
  source : NodeId
  target : NodeId
  slot : Nat
  deriving DecidableEq, Repr

namespace Edge

def isPending (e : Edge) : Bool := e.target.isNone

def link? (e : Edge) : Option Link := e.target.map fun p => ⟨e.source, p.node, p.slot⟩

def touches (e : Edge) (id : NodeId) : Bool := e.source = id || e.target.any (·.node = id)

def joins (e : Edge) (source target : NodeId) : Bool :=
  e.source = source && e.target.any (·.node = target)

end Edge

/-- The producers of a node by slot; of two links into one slot the later one counts. -/
def inputsFrom (links : List Link) (id : NodeId) : Slots NodeId :=
  let into := links.filter (·.target = id)
  Vector.ofFn fun slot => ((into.filter (·.slot = slot.val)).getLast?).map (·.source)

end ShaderGraph
