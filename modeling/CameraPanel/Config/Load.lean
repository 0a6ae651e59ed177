import CameraPanel.Config.Disk
import CameraPanel.Config.Environment
import CameraPanel.Config.Extract
import CameraPanel.Toml.Reader

/-!
# Loading the options

The options come from two files of a directory and from the environment.  The file with the defaults counts least, the
file of the user more, and the environment most.  A file that does not exist says nothing; a file that is malformed
spoils everything, also if nothing of it would count, and so does, before all files, a text of the environment that
would be cut inside a character.
-/

namespace CameraPanel.Config

/-- The directory of the files. -/
def directory : String := "config"

/-- What a file says, as a stack of one layer; nothing if there is no such file. -/
def fileStack (disk : Disk) (path : String) : Except ConfigError Stack :=
  match disk path with
  | none => .ok []
  | some text =>
    match Toml.read? text.toList >>= Value.resolveEntries? with
    | some entries => .ok [⟨.file path, .table entries⟩]
    | none => .error (.malformed path)

/-- What the environment says, as a stack of one layer. -/
def environmentStack (env : Environment) : Except ConfigError Stack :=
  match env.table? with
  | some v => .ok [⟨.environment, v⟩]
  | none => .error .cut

/-- The options from the files of a directory and the environment. -/
def loadFrom (directory : String) (disk : Disk) (env : Environment) : Except ConfigError Options := do
  let environment ← environmentStack env
  let defaults ← fileStack disk (filePath directory "default.toml")
  let user ← fileStack disk (filePath directory "user.toml")
  Stack.options (environment ++ user ++ defaults)

/-- The options from the usual directory. -/
def load (disk : Disk) (env : Environment) : Except ConfigError Options := loadFrom directory disk env

end CameraPanel.Config
