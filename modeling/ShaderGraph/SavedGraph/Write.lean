import ShaderGraph.Evaluation
import ShaderGraph.SavedGraph.Record

namespace ShaderGraph.SavedGraph

def position? (g : Graph) (id : NodeId) : Option Nat := g.ids.idxOf? id

/-- The data columns: a literal's components, or the alpha threshold, and zeros. -/
def dataOf (n : Node) : List Scalar :=
  if n.kind.isLiteral then n.literal.buffer
  else match n.alphaClip with
    | some threshold => (Value.scalar threshold).buffer
    | none => Value.empty.buffer

/-- What an input column says: the position of the producer, or minus one. -/
def inputField (g : Graph) (i : Option NodeId) : String :=
  match i.bind (position? g) with
  | some p => toString p
  | none => "-1"

def nodeFields (g : Graph) (n : Node) : List String :=
  let inputs := g.inputsOf n.id
  [toString n.kind.code, if n.property then "1" else "0"] ++ inputs.toList.map (inputField g)
    ++ [toString inputs.count, toString n.limit, toString n.output.size]
    ++ (dataOf n).map Scalar.toText ++ [Scalar.toText n.position.1, Scalar.toText n.position.2]

def nodeLine (g : Graph) (n : Node) : String :=
  String.join ((nodeFields g n).map (· ++ ",")) ++ "\n"

/-- The links by the topological rank of their target, then by slot. -/
def replayOrder (g : Graph) : List Link :=
  let order := match g.topologicalOrder with
    | .ok order => order
    | .error _ => []
  let rank (l : Link) : Nat := order.idxOf l.target
  g.links.mergeSort fun a b => rank a < rank b || (rank a = rank b && a.slot ≤ b.slot)

def linkLine (g : Graph) (l : Link) : String :=
  match position? g l.source, position? g l.target with
  | some source, some target => s!"?{source}?{target}?{l.slot}\n"
  | _, _ => ""

def save (g : Graph) : String :=
  String.join (g.nodes.map (nodeLine g)) ++ String.join ((replayOrder g).map (linkLine g))

end ShaderGraph.SavedGraph
