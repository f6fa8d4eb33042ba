import ShaderGraph.Script
import ShaderGraph.Settings

namespace ShaderGraph

/-- How scripts and settings are written down. -/
class Format where
  script? : String → Option (List Command)
  settings? : String → Option Settings
  settingsText : Settings → String

instance : Format := ⟨readScript?, Settings.ofText?, Settings.toText⟩

end ShaderGraph
