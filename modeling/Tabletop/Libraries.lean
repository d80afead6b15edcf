import Tabletop.CommandLine
import Tabletop.Program
import Tabletop.Toml.Bounds

/-!
Libraries written out: arguments as `CommandLine` parses them, configurations in TOML, and the
directory of configurations that the environment names.
-/

namespace Tabletop

/-- The directory of configurations. An empty home is none. -/
def Environment.configHome? (env : Environment) : Option String :=
  match env "XDG_CONFIG_HOME" with
  | some directory => some directory
  | none => ((env "HOME").filter (· ≠ "")).map fun home => pathUnder home ".config"

def Libraries.standard : Libraries where
  arguments _ := Arguments.read
  bounds := Bounds.ofToml
  configHome? := Environment.configHome?

end Tabletop
