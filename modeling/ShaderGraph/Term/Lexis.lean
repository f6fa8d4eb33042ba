import ShaderGraph.Text.Name

namespace ShaderGraph.Term

/-- The characters of Unicode's `Pattern_White_Space` property. -/
def isBlank (c : Char) : Bool :=
  let n := c.toNat
  (9 ≤ n && n ≤ 13) || n = 32 || n = 0x85 || n = 0x200e || n = 0x200f || n = 0x2028 || n = 0x2029

/-- Where a skip stands: between tokens, in a line comment, or in a block comment with `depth` more
around it. -/
inductive Gap where
  | blank
  | line
  | block (depth : Nat)
  deriving DecidableEq, Repr

/-- Skips blanks and comments. Block comments nest and have to be closed. -/
def skipFrom : Gap → List Char → Option (List Char)
  | .blank, '/' :: '/' :: cs => skipFrom .line cs
  | .blank, '/' :: '*' :: cs => skipFrom (.block 0) cs
  | .blank, c :: cs =>
    if isBlank c then skipFrom .blank cs else if c = '/' then none else some (c :: cs)
  | .blank, [] => some []
  | .line, c :: cs => skipFrom (if c = '\n' then .blank else .line) cs
  | .line, [] => some []
  | .block depth, '/' :: '*' :: cs => skipFrom (.block (depth + 1)) cs
  | .block 0, '*' :: '/' :: cs => skipFrom .blank cs
  | .block (depth + 1), '*' :: '/' :: cs => skipFrom (.block depth) cs
  | .block depth, _ :: cs => skipFrom (.block depth) cs
  | .block _, [] => none

def skip : List Char → Option (List Char) := skipFrom .blank

def expect (c : Char) (cs : List Char) : Option (List Char) := do
  match ← skip cs with
  | d :: rest => if d = c then some rest else none
  | [] => none

def comma (cs : List Char) : Option (Bool × List Char) := do
  match ← skip cs with
  | ',' :: rest => some (true, ← skip rest)
  | rest => some (false, rest)

/-- Characters a name has only when it is marked as raw. -/
def isRawChar (c : Char) : Bool := Text.continuesName c || c = '.' || c = '+' || c = '-'

/-- A name as it is written. A raw one never stands for a word with a meaning of its own, such as
`None` or `true`. -/
structure Name where
  text : String
  raw : Bool
  deriving DecidableEq, Repr

def startsQuoted : List Char → Bool
  | 'b' :: '"' :: _ | 'b' :: '\x27' :: _ | 'b' :: 'r' :: '#' :: _ | 'b' :: 'r' :: '"' :: _ => true
  | 'r' :: '"' :: _ | 'r' :: '#' :: '"' :: _ | 'r' :: '#' :: '#' :: _ => true
  | _ => false

/-- The longest name at the front, plain or after the mark `r#`. -/
def word? (cs : List Char) : Option (Name × List Char) :=
  if startsQuoted cs then none
  else match cs with
    | 'r' :: '#' :: cs =>
      let raw := cs.takeWhile isRawChar
      if raw.isEmpty then none else some (⟨String.ofList raw, true⟩, cs.dropWhile isRawChar)
    | c :: cs =>
      if Text.startsName c then
        some (⟨String.ofList (c :: cs.takeWhile Text.continuesName), false⟩,
          cs.dropWhile Text.continuesName)
      else none
    | [] => none

/-- A name. It does not run into a character that only raw names have. -/
def name? (cs : List Char) : Option (Name × List Char) :=
  (word? cs).filter fun (_, rest) => !rest.head?.any isRawChar

end ShaderGraph.Term
