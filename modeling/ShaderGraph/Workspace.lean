import ShaderGraph.CheckReport
import ShaderGraph.SavedGraph.Write
import ShaderGraph.Settings

namespace ShaderGraph

inductive WorkspaceError where
  | settingsFile (path : String) (cause : FileError)
  | settingsFormat (path : String)
  | settingsVersion (path : String) (version : Nat)
  | file (path : String) (cause : FileError)
  | graphFile (cause : FileError)
  | load (cause : SavedGraph.LoadError)
  | session (cause : SessionError)
  | compile (cause : Glsl.CompileError)
  | output (path : String) (cause : FileError)
  deriving DecidableEq, Repr

def WorkspaceError.message : WorkspaceError → String
  | settingsFile path cause => s!"Settings error at {path}: {cause.message}"
  | settingsFormat path => s!"Settings error at {path}: {path}: not a settings file"
  | settingsVersion path version =>
    s!"Settings error at {path}: {path} uses settings format {version}, "
      ++ s!"this shadegraph reads up to {Settings.formatVersion}"
  | file path cause => s!"I/O error at {path}: {cause.message}"
  | graphFile cause => s!"Failed to load graph: {cause.message}"
  | load cause => s!"Failed to load graph: {cause.message}"
  | session cause => cause.message
  | compile cause => cause.message
  | output path cause => s!"Failed to write {path}: {cause.message}"

namespace Workspace

variable {m : Type → Type} [Monad m] [FileSystem m]

/-- A request: it fails with an error, and what it did to the files until then stays. -/
abbrev Request (m : Type → Type) (α : Type) := ExceptT WorkspaceError m α

def call {α : Type} (c : m (Except FileError α)) (error : FileError → WorkspaceError) :
    Request m α :=
  ExceptT.mk do return (← c).mapError error

def require {ε α : Type} (r : Except ε α) (error : ε → WorkspaceError) : Request m α :=
  ExceptT.mk (pure (r.mapError error))

def readSettings [Format] (path : String) : Request m Settings := do
  let text ← call (FileSystem.readFile path) (.settingsFile path)
  match Format.settings? text with
  | none => throw (.settingsFormat path)
  | some s =>
    if Settings.formatVersion < s.version then throw (.settingsVersion path s.version) else return s

/-- Handles of a graph that only lives as long as a request. -/
def handles : Nat → Handle := Handle.mk

def openSession [Format] (path : String) : Request m (Settings × Session) := do
  let settings ← readSettings path
  let text ← call (FileSystem.readFile (settings.resolved path).graph) .graphFile
  let g ← require (SavedGraph.load handles text) .load
  let s ← require (Session.ofGraph g .topological) fun c => .session (.cycle c)
  return (settings, s)

def init [Format] (path : String) : Request m Unit := do
  let settings := Settings.default
  call (FileSystem.writeFile path (Format.settingsText settings)) (.settingsFile path)
  let file := (settings.resolved path).graph
  let graph := Graph.new (handles 0) (handles 1)
  call (FileSystem.writeFile file (SavedGraph.save graph)) (.file file)

/-- Applies a script to the graph and saves the result, unless a command was refused. -/
def apply [Format] (script path : String) : Request m Unit := do
  let text ← call (FileSystem.readFile script) (.file script)
  let (settings, s) ← openSession path
  let (outcomes, s) := s.applyScript (fun n => handles (Graph.maxNodes + n)) text
  let _ ← require outcomes .session
  let file := (settings.resolved path).graph
  call (FileSystem.writeFile file (SavedGraph.save s.graph)) (.file file)

def check [Format] (path : String) : Request m String := do
  let (_, s) ← openSession path
  return CheckReport.text s

def stagingPath (path : String) : String := path ++ ".tmp"

def stage (path text : String) : Request m Unit :=
  call (FileSystem.writeFile (stagingPath path) text) (.output (stagingPath path))

def release (path : String) : Request m Unit :=
  call (FileSystem.rename (stagingPath path) path) (.output path)

/-- Removes a staged program; one that is gone already is no failure. -/
def discard (path : String) : Request m Unit :=
  ExceptT.mk do
    let _ ← FileSystem.removeFile (stagingPath path)
    return .ok ()

/-- Stages both programs, then moves the first and the second into place. After a failure nothing
stays staged. -/
def writeShaders (shaders : Glsl.Shaders) (vertex fragment : String) : Request m Unit :=
  tryCatch
    (do
      stage vertex shaders.vertex
      stage fragment shaders.fragment
      release vertex
      release fragment)
    fun e => do
      discard vertex
      discard fragment
      throw e

def compile [Format] (path : String) : Request m Unit := do
  let (settings, s) ← openSession path
  let shaders ← require (Glsl.compile s.graph settings.dialect) .compile
  let paths := settings.resolved path
  writeShaders shaders paths.vertex paths.fragment

end Workspace

end ShaderGraph
