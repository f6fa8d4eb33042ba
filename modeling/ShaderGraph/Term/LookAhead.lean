import ShaderGraph.Term.Lexis
import ShaderGraph.Term.Quote

namespace ShaderGraph.Term

def startsField (cs : List Char) : Bool :=
  match name? cs with
  | some (_, rest) => (expect ':' rest).isSome
  | none => false

/-- What is behind quoted text, after its opening quote: no answer for text that never ends, and
nothing for a false escape. The text has less than `bound` escapes. -/
def quotedEnd? (q : Quoting) : (bound : Nat) → List Char → Option (Option (List Char))
  | 0, _ => none
  | bound + 1, cs =>
    if !cs.contains '"' then none
    else match cs.dropWhile fun c => c ≠ '"' ∧ c ≠ '\\' with
      | '"' :: rest => some (some rest)
      | _ :: rest =>
        match escape? q rest with
        | some (_, rest) => quotedEnd? q bound rest
        | none => some none
      | [] => none

def textEnd? (q : Quoting) : List Char → Option (Option (List Char))
  | '"' :: cs => quotedEnd? q (cs.length + 1) cs
  | 'r' :: cs =>
    match cs.dropWhile (· = '#') with
    | '"' :: rest => (raw? (cs.takeWhile (· = '#')).length rest).map fun (_, rest) => some rest
    | _ => some none
  | _ => some none

/-- Passes over whatever is quoted at the front: a character, a text, and a text of bytes, each if
it comes next. -/
def passQuoted (cs : List Char) : Option (List Char) := do
  let cs := match cs with
    | '\x27' :: inner => (character? inner).elim cs Prod.snd
    | _ => cs
  let cs := (← textEnd? .text cs).getD cs
  match cs with
  | 'b' :: '"' :: inner => return (← textEnd? .bytes ('"' :: inner)).getD cs
  | 'b' :: 'r' :: inner => return (← textEnd? .bytes ('r' :: inner)).getD cs
  | _ => return cs

/-- What the brackets of `Some` hold: a value, or the parts of one without its own brackets. -/
inductive Holding where
  | value
  | parts
  deriving DecidableEq, Repr

def Holding.behindComma (cs : List Char) : Option Holding := do
  return if (← skip cs).head? = some ')' then .value else .parts

/-- Looks for a comma in the brackets, with `depth` others open. It goes character by character and
takes no notice of what comes right behind quoted text, be it the start of a comment. -/
def findComma : (bound depth : Nat) → List Char → Option Holding
  | 0, _, _ => none
  | bound + 1, depth, cs => do
    match ← passQuoted (← skip cs) with
    | [] => none
    | c :: rest =>
      if c = '(' ∨ c = '[' ∨ c = '\x7b' then findComma bound (depth + 1) rest
      else if c = ')' ∨ c = ']' ∨ c = '\x7d' then
        if depth = 0 then return .value else findComma bound (depth - 1) rest
      else if c = ',' ∧ depth = 0 then Holding.behindComma rest
      else findComma bound depth rest

/-- Looks ahead from behind the opening bracket of `Some` and the blanks there. Brackets around
nothing hold the parts of a value without parts. No answer is a failure. -/
def holding? (cs : List Char) : Option Holding :=
  if cs.head? = some ')' then some .parts
  else if startsField cs then some .parts
  else do
    let cs ← match word? cs with
      | some (_, rest) => skip rest
      | none => some cs
    match cs with
    | ',' :: rest => Holding.behindComma rest
    | ')' :: _ => return .value
    | cs => findComma (cs.length + 1) 0 cs

end ShaderGraph.Term
