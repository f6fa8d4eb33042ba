import ShaderGraph.Json
import ShaderGraph.Scalar.Decimal
import ShaderGraph.Session

namespace ShaderGraph.CheckReport

/-- The decimal exponents that are written out in full; others use a signed exponent. -/
def isPlain (exponent : Int) : Bool := -6 ≤ exponent && exponent ≤ 12

def decimalText (d : Scalar.Decimal) : List Char :=
  if isPlain d.exponent then
    if d.plain.contains '.' then d.plain else d.plain ++ ['.', '0']
  else
    let digits := match d.text with
      | [] => []
      | [c] => [c]
      | c :: cs => c :: '.' :: cs
    let sign := if d.exponent < 0 then '-' else '+'
    digits ++ 'e' :: sign :: Nat.toDigits 10 d.exponent.natAbs

/-- A number between two shortest decimals goes to the even one. Numbers that are not finite have no
place in a report. -/
def scalar (x : Scalar) : Json :=
  match x.parts with
  | .finite negative m e =>
    let magnitude := if m = 0 then ['0', '.', '0'] else decimalText (.shortest .even m e)
    .number (String.ofList (if negative then '-' :: magnitude else magnitude))
  | _ => .null

def nat (n : Nat) : Json := .number (toString n)

def node (n : Node) : Json :=
  .object [
    ("id", nat n.id),
    ("kind", .text n.kind.name),
    ("shape", .text n.output.shape.name),
    ("valid", .bool n.isValid),
    ("value", .array (n.output.components.map scalar)),
    ("inputs", .array ((n.inputs.toList.take n.limit).map fun i => (i.map nat).getD .null))]

def json (s : Session) : Json :=
  .object [
    ("nodes", .array (s.graph.nodes.map node)),
    ("connections", nat s.graph.edges.length),
    ("invalid", .array (s.report.invalid.map nat))]

def text (s : Session) : String := (json s).pretty ""

end ShaderGraph.CheckReport
