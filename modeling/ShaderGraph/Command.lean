import ShaderGraph.Evaluation
import ShaderGraph.Graph.Edit

namespace ShaderGraph

inductive Command where
  | createNode (kind : Kind) (init : Init)
  | destroyNode (node : NodeId)
  | beginLink (source : NodeId)
  | finishLink (edge : EdgeId) (target : NodeId) (slot : Option Nat)
  | cancelLink (edge : EdgeId)
  | destroyLink (edge : EdgeId)
  | connect (source target : NodeId) (slot : Option Nat)
  | setLiteral (node : NodeId) (value : List Scalar)
  | setProperty (node : NodeId) (property : Bool)
  | setAlphaClip (node : NodeId) (threshold : Option Scalar)
  | setPosition (node : NodeId) (position : Scalar × Scalar)
  deriving DecidableEq

def Command.description : Command → String
  | createNode .. => "Create node"
  | destroyNode .. => "Destroy node"
  | beginLink .. => "Begin link"
  | finishLink .. => "Finish link"
  | cancelLink .. => "Cancel link"
  | destroyLink .. => "Destroy link"
  | connect .. => "Connect"
  | setLiteral .. => "Set literal"
  | setProperty .. => "Set property"
  | setAlphaClip .. => "Set alpha clip"
  | setPosition .. => "Set position"

inductive Outcome where
  | node (id : NodeId)
  | connection (id : EdgeId)
  | updated
  deriving DecidableEq, Repr

def Graph.apply (g : Graph) (c : Command) (handle : Handle) : Except GraphError (Outcome × Graph) :=
  match c with
  | .createNode kind init => (g.createNode kind init handle).map fun (id, g) => (.node id, g)
  | .destroyNode node => (g.destroyNode node).map fun (_, g) => (.updated, g)
  | .beginLink source => (g.beginEdge source).map fun (id, g) => (.connection id, g)
  | .finishLink edge target slot =>
    (g.finishEdge edge target slot).map fun (_, g) => (.connection edge, g)
  | .cancelLink edge => (g.cancelEdge edge).map fun g => (.updated, g)
  | .destroyLink edge => (g.destroyEdge edge).map fun (_, g) => (.updated, g)
  | .connect source target slot =>
    (g.connect source target slot).map fun (id, g) => (.connection id, g)
  | .setLiteral node value => (g.setLiteral node value).map fun g => (.updated, g)
  | .setProperty node property => (g.setProperty node property).map fun g => (.updated, g)
  | .setAlphaClip node threshold => (g.setAlphaClip node threshold).map fun g => (.updated, g)
  | .setPosition node position => (g.setPosition node position).map fun g => (.updated, g)

end ShaderGraph
