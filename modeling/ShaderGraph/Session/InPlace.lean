import ShaderGraph.Graph.InPlace
import ShaderGraph.Session

namespace ShaderGraph.Session.InPlace

abbrev Steps (α : Type) := EStateM SessionError Session α

def onGraph {ε δ α : Type} (error : ε → δ) (steps : EStateM ε Graph α) : EStateM δ Session α := do
  let s ← get
  match steps.run s.graph with
  | .ok a g => do
    set { s with graph := g }
    return a
  | .error e g => do
    set { s with graph := g }
    throw (error e)

/-- The report stays the one of the last pass that came to an end. -/
def recomputeWith {ε δ : Type} (error : ε → δ) (pass : Order → EStateM ε Graph Report) :
    EStateM δ Session Unit := do
  let s ← get
  let report ← onGraph error (pass s.order)
  modify fun s => { s with report := report }

def recompute : Steps Unit := recomputeWith .cycle Graph.InPlace.recompute

def applyWith {δ : Type} (error : SessionError → δ) (recompute : EStateM δ Session Unit)
    (c : Command) (handle : Handle) : EStateM δ Session Outcome := do
  let outcome ← onGraph (fun e => error (.graph e)) (Graph.InPlace.apply c handle)
  recompute
  return outcome

def apply : Command → Handle → Steps Outcome := applyWith (fun e => e) recompute

def applyIn (o : Overflow) : Command → Handle → EStateM (Halt SessionError) Session Outcome :=
  applyWith .refused (recomputeWith (Halt.map .cycle) (Graph.InPlace.recomputeIn o))

def applyAll (handles : Nat → Handle) : List Command → Steps (List Outcome)
  | [] => return []
  | c :: cs => do
    let outcome ← apply c (handles cs.length)
    let rest ← applyAll handles cs
    return outcome :: rest

def applyScript [Format] (handles : Nat → Handle) (text : String) : Steps (List Outcome) :=
  match Format.script? text with
  | none => throw .script
  | some commands => applyAll handles commands

end ShaderGraph.Session.InPlace
