import ShaderGraph.CommandLine

namespace ShaderGraph

def attempt {α : Type} (c : IO α) : BaseIO (Except FileError α) := do
  match ← c.toBaseIO with
  | .ok a => return .ok a
  | .error (.noFileOrDirectory ..) => return .error .notFound
  | .error (.resourceBusy ..) => return .error .busy
  | .error (.inappropriateType _ code _) =>
    return .error (if code = 20 ∨ code = -20 then .notDirectory else .isDirectory)
  | .error (.invalidArgument _ 36 _) => return .error .nameTooLong
  | .error e => return .error (.other (toString e))

instance : FileSystem BaseIO where
  readFile path := attempt (IO.FS.readFile path)
  writeFile path text := attempt (IO.FS.writeFile path text)
  rename source target := attempt (IO.FS.rename source target)
  removeFile path := attempt (IO.FS.removeFile path)

end ShaderGraph

def main (args : List String) : IO UInt32 := do
  match ← (ShaderGraph.CommandLine.run args : BaseIO _) with
  | .ok output =>
    IO.print output
    return 0
  | .error message =>
    IO.eprintln message
    return 1
