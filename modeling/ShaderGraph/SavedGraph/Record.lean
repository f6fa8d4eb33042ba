import ShaderGraph.Kind
import ShaderGraph.Scalar.Decimal
import ShaderGraph.Text

namespace ShaderGraph.SavedGraph

inductive Column where
  | kind | property | input | limit | data | x | y | reference | slot
  deriving DecidableEq, Repr

def Column.label : Column → String
  | kind => "kind"
  | property => "property flag"
  | input => "input"
  | limit => "input limit"
  | data => "data"
  | x => "x"
  | y => "y"
  | reference => "node reference"
  | slot => "slot"

inductive RecordError where
  | nodeAfterEdges
  | openEnded
  | fieldCount (n : Nat)
  | invalid (column : Column) (field : String)
  | unknownKind (code : Nat)
  | edgeForm
  | noNode (position : Nat)
  deriving DecidableEq, Repr

def fieldCount : Nat := 27

def RecordError.message : RecordError → String
  | nodeAfterEdges => "node record after edge records"
  | openEnded => "node record must end with ','"
  | fieldCount n => s!"expected {SavedGraph.fieldCount} fields, found {n}"
  | invalid column field => s!"invalid {column.label} '{field}'"
  | unknownKind code => s!"unknown kind {code}"
  | edgeForm => "edge record must be ?from?to or ?from?to?slot"
  | noNode position => s!"no node record {position}"

/-- What loading uses of a node record. -/
structure NodeRecord where
  kind : Kind
  property : Bool
  limit : Nat
  data : List Scalar
  position : Scalar × Scalar

structure EdgeRecord where
  source : Nat
  target : Nat
  slot : Option Nat
  deriving DecidableEq, Repr

/-- Reads a field without the blanks around it; an error quotes the field with them. -/
def readField {α : Type} (column : Column) (read : List Char → Option α) (field : List Char) :
    Except RecordError α :=
  match read (Text.trim field) with
  | some a => .ok a
  | none => .error (.invalid column (String.ofList field))

def readByte (column : Column) : List Char → Except RecordError Nat :=
  readField column (Text.nat? (Nat.pow 2 8))

def readSize (column : Column) : List Char → Except RecordError Nat :=
  readField column (Text.nat? (Nat.pow 2 64))

def readScalar (column : Column) : List Char → Except RecordError Scalar :=
  readField column Scalar.ofChars?

def readKind (field : List Char) : Except RecordError Kind := do
  let code ← readField .kind (Text.nat? (Nat.pow 2 16)) field
  match Kind.ofCode? code with
  | some k => .ok k
  | none => .error (.unknownKind code)

def splitFields (line : List Char) : Except RecordError (List (List Char)) :=
  match line.reverse with
  | ',' :: rest =>
    let fields := Text.splitOn ',' rest.reverse
    if fields.length = fieldCount then .ok fields else .error (.fieldCount fields.length)
  | _ => .error .openEnded

/-- Reads the fields in the order of their columns; the first bad one is reported. -/
def readNode (line : List Char) : Except RecordError NodeRecord := do
  let fields ← splitFields line
  let field (i : Nat) : List Char := fields.getD i []
  let kind ← readKind (field 0)
  let property ← readByte .property (field 1)
  let _ ← ((fields.drop 2).take 4).mapM (readField .input Text.int64?)
  let limit ← readSize .limit (field 7)
  let data ← ((fields.drop 9).take 16).mapM (readScalar .data)
  let x ← readScalar .x (field 25)
  let y ← readScalar .y (field 26)
  return ⟨kind, property ≠ 0, limit, data, (x, y)⟩

def readReference (known : Nat) (field : List Char) : Except RecordError Nat := do
  let position ← readSize .reference field
  if position < known then return position else throw (.noNode position)

def readEdge (known : Nat) (line : List Char) : Except RecordError EdgeRecord := do
  match Text.splitOn '?' line with
  | [source, target] =>
    return ⟨← readReference known source, ← readReference known target, none⟩
  | [source, target, slot] =>
    return ⟨← readReference known source, ← readReference known target,
      some (← readByte .slot slot)⟩
  | _ => throw .edgeForm

end ShaderGraph.SavedGraph
