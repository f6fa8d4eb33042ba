import ShaderGraph.Text

namespace ShaderGraph.Path

def isAbsolute (path : String) : Bool := path.toList.head? = some '/'

/-- A step of a path: it stays, leaves for the directory above, or goes to something by its name. -/
inductive Step where
  | stay
  | up
  | down (name : String)
  deriving DecidableEq, Repr

def Step.ofText (s : String) : Step := if s = "." then .stay else if s = ".." then .up else .down s

def pieces (path : String) : List String := (Text.splitOn '/' path.toList).map String.ofList

/-- The steps of a path. Slashes in a row are like one. -/
def steps (path : String) : List Step := ((pieces path).filter (· ≠ "")).map Step.ofText

def names (path : String) : List String :=
  (steps path).filterMap fun
    | .down name => some name
    | _ => none

def endsInSlash (path : String) : Bool := path.toList.getLast? = some '/'

def trim (path : String) : String :=
  let cs := path.toList
  String.ofList (go cs.length cs.reverse).reverse
where
  go : Nat → List Char → List Char
    | bound + 1, '/' :: c :: cs => go bound (c :: cs)
    | bound + 1, '.' :: '/' :: c :: cs => go bound (c :: cs)
    | _, cs => cs

/-- The directory of a path as it is written; nothing for a bare name. -/
def parent (path : String) : String :=
  let whole := (trim path).toList.reverse
  let above := whole.dropWhile (· ≠ '/')
  if above.length = 1 then (if whole.length = 1 then "" else "/")
  else trim (String.ofList (above.drop 1).reverse)

/-- A path read from a directory; an absolute path stands for itself. -/
def join (directory path : String) : String :=
  if isAbsolute path ∨ directory = "" then path
  else if endsInSlash directory then directory ++ path
  else directory ++ "/" ++ path

end ShaderGraph.Path
