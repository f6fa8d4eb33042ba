import ShaderGraph.FileTree
import ShaderGraph.Glsl.Dialect
import ShaderGraph.Term.Decode

namespace ShaderGraph

structure Paths where
  graph : String
  vertex : String
  fragment : String
  deriving DecidableEq, Repr

structure Settings where
  version : Nat
  dialect : Glsl.Dialect
  paths : Paths
  deriving DecidableEq, Repr

namespace Settings

/-- The latest version of the format. Later ones are refused rather than half read. -/
def formatVersion : Nat := 1

def defaultFile : String := "shadegraph.ron"

def default : Settings where
  version := formatVersion
  dialect := .glsl330
  paths := ⟨"graph.sg", "shader.vert", "shader.frag"⟩

/-- Reads the paths. Other fields of theirs are passed over; they have the settings, the paths, and
the fields of both above them. -/
def pathsOfTerm? (e : Term.Extensions) (t : Term) : Option Paths := do
  let fields ← t.structure? e "PathSettings"
  guard (fields.arePassable 4 ["graph", "vertex", "fragment"])
  let path (name : String) : Option String := fields.required name Term.string?
  return ⟨← path "graph", ← path "vertex", ← path "fragment"⟩

def dialectOfTerm? : Term → Option Glsl.Dialect
  | .word name => Glsl.Dialect.ofName? name.text
  | _ => none

/-- Reads a settings text. The version is required, and of the paths all or none; other fields are
passed over. -/
def ofText? (text : String) : Option Settings := do
  let (e, t) ← Term.ofText? text
  let fields ← t.structure? e "ShadegraphSettings"
  guard (fields.arePassable 2 ["version", "dialect", "paths"])
  return {
    version := ← fields.required "version" (Term.nat? .u32)
    dialect := ← fields.optional "dialect" default.dialect dialectOfTerm?
    paths := ← fields.optional "paths" default.paths (pathsOfTerm? e) }

def quote (s : String) : String :=
  let escape (c : Char) : List Char := if c = '"' ∨ c = '\\' then ['\\', c] else [c]
  "\"" ++ String.ofList (s.toList.flatMap escape) ++ "\""

def toText (s : Settings) : String :=
  String.intercalate "\n" [
    "ShadegraphSettings(",
    s!"    version: {s.version},",
    s!"    dialect: {s.dialect.name},",
    "    paths: PathSettings(",
    s!"        graph: {quote s.paths.graph},",
    s!"        vertex: {quote s.paths.vertex},",
    s!"        fragment: {quote s.paths.fragment},",
    "    ),",
    ")"]

def resolved (s : Settings) (file : String) : Paths :=
  let directory := Path.parent file
  ⟨Path.join directory s.paths.graph, Path.join directory s.paths.vertex,
    Path.join directory s.paths.fragment⟩

end Settings

end ShaderGraph
