namespace ShaderGraph

inductive Json where
  | null
  | bool (b : Bool)
  /-- A number, by its text. -/
  | number (digits : String)
  /-- A text without anything to escape. -/
  | text (s : String)
  | array (items : List Json)
  | object (fields : List (String × Json))

namespace Json

/-- Lines between brackets, with nothing between them when there are none. -/
def block (indent : String) (opening closing : String) (lines : List String) : String :=
  if lines.isEmpty then opening ++ closing
  else
    let inner := String.intercalate ",\n" (lines.map (indent ++ "  " ++ ·))
    opening ++ "\n" ++ inner ++ "\n" ++ indent ++ closing

mutual

def pretty (indent : String) : Json → String
  | null => "null"
  | bool b => if b then "true" else "false"
  | number digits => digits
  | text s => "\"" ++ s ++ "\""
  | array items => block indent "[" "]" (prettyItems (indent ++ "  ") items)
  | object fields => block indent "\x7b" "\x7d" (prettyFields (indent ++ "  ") fields)

def prettyItems (indent : String) : List Json → List String
  | [] => []
  | j :: js => j.pretty indent :: prettyItems indent js

def prettyFields (indent : String) : List (String × Json) → List String
  | [] => []
  | (name, j) :: fields => ("\"" ++ name ++ "\": " ++ j.pretty indent) :: prettyFields indent fields

end

end Json

end ShaderGraph
