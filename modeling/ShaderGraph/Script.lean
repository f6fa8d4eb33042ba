import ShaderGraph.Command
import ShaderGraph.Term.Decode

namespace ShaderGraph

def Kind.ofTerm? : Term → Option Kind
  | .word name => Kind.ofName? name.text
  | _ => none

def Init.ofTerm? : Term → Option Init
  | .word ⟨"Default", _⟩ => some .standard
  | .tuple (some ⟨"Literal", _⟩) [t] => (t.list? Term.toScalar?).map .literal
  | .tuple (some ⟨"Arity", _⟩) [t] => (t.nat? .u64).map .arity
  | _ => none

namespace Command

def fieldNames : String → List String
  | "CreateNode" => ["kind", "init"]
  | "DestroyNode" => ["node"]
  | "BeginLink" => ["from"]
  | "FinishLink" => ["edge", "to", "slot"]
  | "CancelLink" | "DestroyLink" => ["edge"]
  | "Connect" => ["from", "to", "slot"]
  | "SetLiteral" => ["node", "value"]
  | "SetProperty" => ["node", "property"]
  | "SetAlphaClip" => ["node", "threshold"]
  | "SetPosition" => ["node", "position"]
  | _ => []

def ofFields? (e : Term.Extensions) (name : String) (fields : Term.Fields) : Option Command :=
  let id (field : String) : Option Nat := fields.required field (Term.nat? .u16)
  let slot : Option (Option Nat) := fields.optional "slot" none (Term.option? e (Term.nat? .u8))
  match name with
  | "CreateNode" => do
    return .createNode (← fields.required "kind" Kind.ofTerm?)
      (← fields.optional "init" .standard Init.ofTerm?)
  | "DestroyNode" => do return .destroyNode (← id "node")
  | "BeginLink" => do return .beginLink (← id "from")
  | "FinishLink" => do return .finishLink (← id "edge") (← id "to") (← slot)
  | "CancelLink" => do return .cancelLink (← id "edge")
  | "DestroyLink" => do return .destroyLink (← id "edge")
  | "Connect" => do return .connect (← id "from") (← id "to") (← slot)
  | "SetLiteral" => do
    return .setLiteral (← id "node") (← fields.required "value" (Term.list? Term.toScalar?))
  | "SetProperty" => do
    return .setProperty (← id "node") (← fields.required "property" Term.bool?)
  | "SetAlphaClip" => do
    return .setAlphaClip (← id "node")
      (← fields.optional "threshold" none (Term.option? e Term.toScalar?))
  | "SetPosition" => do
    return .setPosition (← id "node") (← fields.required "position" (Term.pair? Term.toScalar?))
  | _ => none

/-- The levels above the value of a field: the script, its item, the command, its fields and the
field itself. -/
def levelsAbove : Nat := 5

/-- Fields that the command does not have are passed over. -/
def ofTerm? (e : Term.Extensions) : Term → Option Command
  | .record (some name) fields =>
    if Term.Fields.arePassable fields levelsAbove (fieldNames name.text) then
      ofFields? e name.text fields
    else none
  | _ => none

end Command

def readScript? (text : String) : Option (List Command) := do
  let (e, t) ← Term.ofText? text
  t.list? (Command.ofTerm? e)

end ShaderGraph
