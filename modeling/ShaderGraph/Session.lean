import ShaderGraph.Format
import ShaderGraph.Glsl.Compile
import ShaderGraph.SavedGraph.Load

namespace ShaderGraph

structure Session where
  graph : Graph
  order : Order
  /-- What the last pass found. -/
  report : Report
  deriving DecidableEq

inductive SessionError where
  | graph (cause : GraphError)
  | cycle (cause : Cycle)
  | script
  deriving DecidableEq, Repr

def SessionError.message : SessionError → String
  | graph cause => cause.message
  | cycle cause => cause.message
  | script => "Invalid command script"

namespace Session

def ofGraph (g : Graph) (order : Order) : Except Cycle Session :=
  match g.recompute order with
  | .ok (g, report) => .ok ⟨g, order, report⟩
  | .error c => .error c

def new (vertexHandle fragmentHandle : Handle) : Session :=
  let g := Graph.new vertexHandle fragmentHandle
  match ofGraph g .topological with
  | .ok s => s
  | .error _ => ⟨g, .topological, ⟨0, []⟩⟩

def recompute (s : Session) : Except Cycle Session := ofGraph s.graph s.order

def apply (s : Session) (c : Command) (handle : Handle) :
    Except SessionError (Outcome × Session) :=
  match s.graph.apply c handle with
  | .error e => .error (.graph e)
  | .ok (outcome, g) =>
    match ofGraph g s.order with
    | .error c => .error (.cycle c)
    | .ok s => .ok (outcome, s)

/-- Carries out commands up to the first that is refused. What was done before stays done. The
command with `n` others behind it takes handle `n`. -/
def applyAll (s : Session) (handles : Nat → Handle) :
    List Command → Except SessionError (List Outcome) × Session
  | [] => (.ok [], s)
  | c :: cs =>
    match s.apply c (handles cs.length) with
    | .error e => (.error e, s)
    | .ok (outcome, s) =>
      let (rest, s) := applyAll s handles cs
      (rest.map (outcome :: ·), s)

/-- Carries out a script. A text that is none changes nothing. -/
def applyScript [Format] (s : Session) (handles : Nat → Handle) (text : String) :
    Except SessionError (List Outcome) × Session :=
  match Format.script? text with
  | none => (.error .script, s)
  | some commands => s.applyAll handles commands

end Session

end ShaderGraph
