import ShaderGraph.Path

namespace ShaderGraph

inductive FileError where
  | notFound
  | busy
  | notDirectory
  | isDirectory
  | nameTooLong
  | nulInName
  | other (text : String)
  deriving DecidableEq, Repr

def FileError.message : FileError → String
  | notFound => "No such file or directory (os error 2)"
  | busy => "Device or resource busy (os error 16)"
  | notDirectory => "Not a directory (os error 20)"
  | isDirectory => "Is a directory (os error 21)"
  | nameTooLong => "File name too long (os error 36)"
  | nulInName => "file name contained an unexpected NUL byte"
  | other text => text

/-- The calls on files, in a monad that carries them out. -/
class FileSystem (m : Type → Type) where
  readFile : String → m (Except FileError String)
  writeFile : String → String → m (Except FileError Unit)
  /-- Moves a file, over another if there is one. -/
  rename : String → String → m (Except FileError Unit)
  removeFile : String → m (Except FileError Unit)

/-- Where a file or directory is: the names from the root down. -/
abbrev Location := List String

inductive Entry where
  | file (text : String)
  | directory
  deriving DecidableEq, Repr

structure FileTree where
  contents : List (Location × Entry)
  workingDirectory : Location
  deriving DecidableEq, Repr

/-- What a path leads to: a directory that is there, or a name in one, which need not be. -/
inductive Target where
  | directory
  | named (parent : Location) (name : String) (slash : Bool)
  deriving DecidableEq, Repr

namespace FileTree

def maxNameBytes : Nat := 255

/-- The bytes a path may not have. -/
def pathLimit : Nat := 4096

/-- The working directory and those above it are always there. -/
def lookup? (t : FileTree) (location : Location) : Option Entry :=
  if location.isPrefixOf t.workingDirectory then some .directory else t.contents.lookup location

def child? (t : FileTree) (parent : Location) (name : String) : Except FileError (Option Entry) :=
  if maxNameBytes < name.utf8ByteSize then .error .nameTooLong
  else .ok (t.lookup? (parent ++ [name]))

/-- Takes a step to another directory. There is nothing above the root. -/
def enter (t : FileTree) (location : Location) : Path.Step → Except FileError Location
  | .stay => .ok location
  | .up => .ok location.dropLast
  | .down name => do
    match ← t.child? location name with
    | some .directory => return location ++ [name]
    | some (.file _) => throw .notDirectory
    | none => throw .notFound

/-- Follows a path. Each step but the last has to lead to a directory. -/
def locate (t : FileTree) (path : String) : Except FileError Target :=
  if path.toList.contains (Char.ofNat 0) then .error .nulInName
  else if path = "" then .error .notFound
  else if pathLimit ≤ path.utf8ByteSize then .error .nameTooLong
  else do
    let steps := Path.steps path
    let start := if Path.isAbsolute path then [] else t.workingDirectory
    let parent ← steps.dropLast.foldlM t.enter start
    match steps.getLast? with
    | some (.down name) => return .named parent name (Path.endsInSlash path)
    | _ => return .directory

/-- A slash behind the name of a file asks for a directory in its place. -/
def read (t : FileTree) (path : String) : Except FileError String := do
  match ← t.locate path with
  | .directory => throw .isDirectory
  | .named parent name slash =>
    match ← t.child? parent name with
    | some (.file text) => if slash then throw .notDirectory else return text
    | some .directory => throw .isDirectory
    | none => throw .notFound

/-- Puts a file where there was one, or else behind all others. -/
def put (t : FileTree) (location : Location) (text : String) : FileTree :=
  { t with contents :=
      if (t.contents.lookup location).isSome then
        t.contents.map fun e => if e.1 = location then (location, .file text) else e
      else t.contents ++ [(location, .file text)] }

def remove (t : FileTree) (location : Location) : FileTree :=
  { t with contents := t.contents.filter fun e => e.1 ≠ location }

/-- A path with a slash at its end is never written to, whatever is there. -/
def write (t : FileTree) (path text : String) : Except FileError FileTree := do
  match ← t.locate path with
  | .directory | .named _ _ true => throw .isDirectory
  | .named parent name false =>
    if (← t.child? parent name) = some .directory then throw .isDirectory
    else return t.put (parent ++ [name]) text

def move (t : FileTree) (source target : String) : Except FileError FileTree := do
  match ← t.locate source, ← t.locate target with
  | .named a old oldSlash, .named b new newSlash =>
    let some entry ← t.child? a old | throw .notFound
    let taken ← t.child? b new
    match entry with
    | .directory => throw .isDirectory
    | .file text =>
      if oldSlash || newSlash then throw .notDirectory
      else if taken = some .directory then throw .isDirectory
      else if a ++ [old] = b ++ [new] then return t
      else return (t.remove (a ++ [old])).put (b ++ [new]) text
  | _, _ => throw .busy

def delete (t : FileTree) (path : String) : Except FileError FileTree := do
  match ← t.locate path with
  | .directory => throw .isDirectory
  | .named parent name slash =>
    match ← t.child? parent name with
    | some (.file _) => if slash then throw .notDirectory else return t.remove (parent ++ [name])
    | some .directory => throw .isDirectory
    | none => throw .notFound

def above (location : Location) : List Location := (List.range location.length).map location.take

/-- Where a workspace is taken to be. -/
def home : Location := ["tmp", "shadegraph"]

/-- The tree of the given files and directories and all that lies above them, in a working directory
with nothing else in it. -/
def ofEntries (entries : List (Location × Entry)) : FileTree :=
  let directories := entries.flatMap fun e => (above e.1).filter (· ≠ [])
  let missing := directories.eraseDups.filter fun d => (entries.lookup d).isNone
  ⟨(missing.map (·, Entry.directory) ++ entries).map fun e => (home ++ e.1, e.2), home⟩

def entries (t : FileTree) : List (Location × Entry) :=
  t.contents.filterMap fun e => (t.workingDirectory.isPrefixOf? e.1).map (·, e.2)

def change (f : FileTree → Except FileError FileTree) : StateM FileTree (Except FileError Unit) :=
  fun t => match f t with
    | .ok t => (.ok (), t)
    | .error e => (.error e, t)

instance : FileSystem (StateM FileTree) where
  readFile path := fun t => (t.read path, t)
  writeFile path text := change (·.write path text)
  rename source target := change (·.move source target)
  removeFile path := change (·.delete path)

end FileTree

end ShaderGraph
