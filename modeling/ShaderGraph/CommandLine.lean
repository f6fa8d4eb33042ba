import ShaderGraph.Workspace

namespace ShaderGraph.CommandLine

def usage : String := "usage: shadegraph <init|apply <script.ron>|check|compile> [settings]"

inductive Action where
  | init (settings : String)
  | apply (script settings : String)
  | check (settings : String)
  | compile (settings : String)
  deriving DecidableEq, Repr

/-- Reads the arguments; those past the last one needed are not looked at. -/
def action? : List String → Option Action
  | "init" :: rest => some (.init (rest.headD Settings.defaultFile))
  | "apply" :: script :: rest => some (.apply script (rest.headD Settings.defaultFile))
  | "check" :: rest => some (.check (rest.headD Settings.defaultFile))
  | "compile" :: rest => some (.compile (rest.headD Settings.defaultFile))
  | _ => none

variable {m : Type → Type} [Monad m] [FileSystem m]

def Action.perform [Format] : Action → Workspace.Request m String
  | init settings => do Workspace.init settings; return ""
  | apply script settings => do Workspace.apply script settings; return ""
  | check settings => do return (← Workspace.check settings) ++ "\n"
  | compile settings => do Workspace.compile settings; return ""

def run [Format] (args : List String) : m (Except String String) :=
  match action? args with
  | none => return .error usage
  | some a => do return (← a.perform.run).mapError WorkspaceError.message

end ShaderGraph.CommandLine
