import ShaderGraph.Term.LookAhead

namespace ShaderGraph

inductive Term where
  | number (digits : List Char)
  /-- A quoted byte, which is a number. -/
  | byte (value : Nat)
  | text (content : String)
  /-- Text made of bytes; nothing that is read from terms asks what it says. -/
  | bytes
  | character (value : Char)
  | word (name : Term.Name)
  /-- `Some` and what is in its brackets. Where it takes a look ahead to tell what that is, the text
  to look at is kept. -/
  | optional (ahead : Option (List Char)) (inside : Term)
  /-- Round brackets with not even a blank in them. -/
  | unit
  | list (items : List Term)
  | map (entries : List (Term × Term))
  | tuple (name : Option Term.Name) (items : List Term)
  | record (name : Option Term.Name) (fields : List (String × Term))

namespace Term

/-- What a text may ask for in front of its term. -/
structure Extensions where
  /-- An optional value may be written without `Some`. -/
  implicitSome : Bool
  /-- Fields have to carry the name of what they belong to. -/
  explicitNames : Bool
  /-- What stands in the brackets of `Some` may itself be without brackets. -/
  openVariants : Bool
  deriving DecidableEq, Repr

def Extensions.none : Extensions := ⟨false, false, false⟩

def Extensions.enable? (e : Extensions) : String → Option Extensions
  | "implicit_some" => some { e with implicitSome := true }
  | "explicit_struct_names" => some { e with explicitNames := true }
  | "unwrap_variant_newtypes" => some { e with openVariants := true }
  | "unwrap_newtypes" => some e
  | _ => Option.none

def behindSome? : List Char → Option (List Char)
  | 'S' :: 'o' :: 'm' :: 'e' :: rest =>
    if rest.head?.any Text.continuesName then none else some rest
  | _ => none

/-- Reads what has no parts: quoted text and characters, with or without a `b`, and numbers. -/
def simple? (cs : List Char) : Option (Term × List Char) :=
  match cs with
  | '\x27' :: inner => (character? inner).map fun (c, rest) => (.character c, rest)
  | 'b' :: '\x27' :: inner => (byteLiteral? inner).map fun (b, rest) => (.byte b, rest)
  | 'b' :: '"' :: inner => (text? .bytes ('"' :: inner)).map fun (_, rest) => (.bytes, rest)
  | 'b' :: 'r' :: inner => (text? .bytes ('r' :: inner)).map fun (_, rest) => (.bytes, rest)
  | _ =>
    match text? .text cs with
    | some (content, rest) => some (.text (String.ofList content), rest)
    | none => (number? cs).map fun (digits, rest) => (.number digits, rest)

mutual

/-- Reads a term. Each call has one `bound` less, and none is needed beyond the length of the
input. -/
def read? (e : Extensions) : (bound : Nat) → List Char → Option (Term × List Char)
  | 0, _ => none
  | bound + 1, cs =>
    match simple? cs with
    | some found => some found
    | none =>
      match behindSome? cs, name? cs with
      | some rest, _ => do
        match ← skip rest with
        | '(' :: inner =>
          let inner ← skip inner
          let (inside, rest) ← someBrackets? e bound inner
          return (.optional (if e.openVariants then some inner else none) inside, rest)
        | next =>
          if e.implicitSome then
            let (t, rest) ← read? e bound next
            return (.optional none (.tuple none [t]), rest)
          else none
      | none, some (name, rest) => do
        match ← skip rest with
        | '(' :: inner => brackets? e bound (some name) inner
        | _ => some (.word name, rest)
      | none, none =>
        match cs with
        | '(' :: ')' :: rest => some (.unit, rest)
        | '(' :: inner => brackets? e bound none inner
        | '[' :: inner => do
          let (items, rest) ← items? e bound ']' inner
          return (.list items, rest)
        | '\x7b' :: inner => do
          let (entries, rest) ← entries? e bound inner
          return (.map entries, rest)
        | _ => none

def someBrackets? (e : Extensions) : (bound : Nat) → List Char → Option (Term × List Char)
  | 0, _ => none
  | _ + 1, ')' :: rest => some (.unit, rest)
  | bound + 1, cs => brackets? e bound none cs

def brackets? (e : Extensions) :
    (bound : Nat) → Option Name → List Char → Option (Term × List Char)
  | 0, _, _ => none
  | bound + 1, name, cs => do
    let cs ← skip cs
    if startsField cs then
      let (fields, rest) ← fields? e bound cs
      return (.record name fields, rest)
    else
      let (items, rest) ← items? e bound ')' cs
      return (.tuple name items, rest)

def items? (e : Extensions) :
    (bound : Nat) → (close : Char) → List Char → Option (List Term × List Char)
  | 0, _, _ => none
  | bound + 1, close, cs => do
    match ← skip cs with
    | [] => none
    | c :: rest =>
      if c = close then return ([], rest)
      else
        let (item, rest) ← read? e bound (c :: rest)
        let (more, rest) ← comma rest
        if more then
          let (items, rest) ← items? e bound close rest
          return (item :: items, rest)
        else return ([item], ← expect close rest)

def fields? (e : Extensions) :
    (bound : Nat) → List Char → Option (List (String × Term) × List Char)
  | 0, _ => none
  | bound + 1, cs => do
    match ← skip cs with
    | ')' :: rest => return ([], rest)
    | cs =>
      let (name, rest) ← name? cs
      let (value, rest) ← read? e bound (← skip (← expect ':' rest))
      let (more, rest) ← comma rest
      if more then
        let (fields, rest) ← fields? e bound rest
        return ((name.text, value) :: fields, rest)
      else return ([(name.text, value)], ← expect ')' rest)

def entries? (e : Extensions) :
    (bound : Nat) → List Char → Option (List (Term × Term) × List Char)
  | 0, _ => none
  | bound + 1, cs => do
    match ← skip cs with
    | '\x7d' :: rest => return ([], rest)
    | cs =>
      let (key, rest) ← read? e bound cs
      let (value, rest) ← read? e bound (← skip (← expect ':' rest))
      let (more, rest) ← comma rest
      if more then
        let (entries, rest) ← entries? e bound rest
        return ((key, value) :: entries, rest)
      else return ([(key, value)], ← expect '\x7d' rest)

end

def expectAll (cs : List Char) : List Char → Option (List Char)
  | [] => some cs
  | c :: more => do expectAll (← expect c cs) more

def expectText (text : String) (cs : List Char) : Option (List Char) := do
  let cs ← skip cs
  let n := text.length
  if cs.take n = text.toList then some (cs.drop n) else none

def extensionNames? : (bound : Nat) → Extensions → List Char → Option (Extensions × List Char)
  | 0, _, _ => none
  | bound + 1, e, cs => do
    let (name, rest) ← name? cs
    let e ← e.enable? name.text
    let (more, rest) ← comma rest
    if more && rest.head?.any Text.startsName then extensionNames? bound e rest
    else return (e, ← expectAll rest [')', ']'])

/-- The attributes in front of a term, each of them `#![enable(...)]`. -/
def extensions? : (bound : Nat) → Extensions → List Char → Option (Extensions × List Char)
  | 0, _, _ => none
  | bound + 1, e, cs => do
    match ← skip cs with
    | '#' :: rest =>
      let rest ← expectText "enable" (← expectAll rest ['!', '['])
      let (e, rest) ← extensionNames? bound e (← skip (← expect '(' rest))
      extensions? bound e rest
    | rest => return (e, rest)

/-- A whole text: attributes, one term, and nothing behind it. -/
def ofText? (s : String) : Option (Extensions × Term) := do
  let cs := s.toList
  let (e, rest) ← extensions? (cs.length + 1) .none cs
  let (t, rest) ← read? e (3 * cs.length + 3) rest
  match ← skip rest with
  | [] => return (e, t)
  | _ => none

end Term

end ShaderGraph
