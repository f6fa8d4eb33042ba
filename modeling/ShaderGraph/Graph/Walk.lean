import ShaderGraph.Slots
import ShaderGraph.Node

namespace ShaderGraph

structure Cycle where
  through : NodeId
  deriving DecidableEq, Repr

def Cycle.message (c : Cycle) : String := s!"Graph contains a cycle through node {c.through}"

/-- The nodes a walk has entered and those it has left, the latest first. -/
structure Walk where
  entered : List NodeId
  left : List NodeId
  deriving DecidableEq, Repr

namespace Walk

def start : Walk := ⟨[], []⟩

/-- Walks one node. The nodes entered and not yet left are on the `path`; a path of distinct nodes
has `room` for that many more. -/
def visit (producers : NodeId → List NodeId) :
    (room : Nat) → (path : List NodeId) → Walk → NodeId → Except Cycle Walk
  | room, path, w, id =>
    if path.any (· == id) then .error ⟨id⟩
    else if w.left.any (· == id) then .ok w
    else match room with
      | 0 => .error ⟨id⟩
      | room + 1 => do
        let w ← (producers id).foldlM (visit producers room (id :: path))
          { w with entered := id :: w.entered }
        return { w with left := id :: w.left }

def visitAll (producers : NodeId → List NodeId) (size : Nat) (ids : List NodeId) :
    Except Cycle Walk :=
  ids.foldlM (visit producers size []) start

/-- Every node of the walk, producers last. -/
def preorder (w : Walk) : List NodeId := w.entered.reverse

/-- Every node of the walk, producers first. -/
def postorder (w : Walk) : List NodeId := w.left.reverse

end Walk

end ShaderGraph
