import UsageOrder.Project.World
import UsageOrder.Yaml.Value
import UsageOrder.Yaml.Writer

/-!
# Configuration files

A configuration file is YAML or JSON by its suffix.  A file that cannot be used is logged and counts
as one without settings.  The configuration of a project is read in three layers: the user's file,
the project's file, and the environment.
-/

namespace UsageOrder
namespace Config

/-- The forms of a configuration file. -/
inductive Form where
  | yaml
  | json

/-- The form that goes with the suffix of a path. -/
def form? (path : Path) : Option Form :=
  if path.suffix = ".yaml" ∨ path.suffix = ".yml" then some .yaml
  else if path.suffix = ".json" then some .json
  else none

/-- The value in a configuration file; an empty YAML document counts as one without settings. -/
def valueOf (form : Form) (text : Text) : Except Fault Json :=
  match form with
  | .json =>
    match Json.parse text with
    | .ok value => .ok value
    | .error e => .error (.notJson e)
  | .yaml =>
    match Yaml.parse? text with
    | some value => .ok (if value.truthy then value else .obj [])
    | none => .error .badValue

/-- The configuration in a file that is there. -/
def readFile (path : Path) (form : Form) : Run Config := do
  let value ← Run.ofExcept (valueOf form (← Run.readText path))
  let config ← Run.ofExcept (ofJson value)
  return { config with configFile := some path.toText }

/-- The configuration in a file; the default one if the file cannot be used. -/
def load (path : Path) : Run Config := do
  match ← Run.read fun world => world.look path, form? path with
  | none, _ =>
    Run.warn ("Config file not found: " ++ path.toText)
    return default
  | some (.directory _ _), _ =>
    Run.complain "Error loading config file"
    return default
  | some _, none =>
    Run.complain ("Unsupported config file format: " ++ path.suffix)
    return default
  | some _, some form =>
    match ← (readFile path form).outcome with
    | .ok config => return config
    | .error _ =>
      Run.complain "Error loading config file"
      return default

/-- Applies the environment of the world. -/
def applyWorld (config : Config) : Run Config := do
  let applied := config.applyEnvironment (← get).environment
  if let some warning := applied.warning then Run.warn warning
  match applied.fault with
  | some fault => throw fault
  | none => return applied.config

/-- The name of a project's configuration file. -/
def projectFile : Path := ⟨0, [".styled-sort.yaml"]⟩

/-- The user's configuration file below the home directory. -/
def userFile : Path := ⟨0, [".styled-sort", "config.yaml"]⟩

/-- The configuration of the user, of a project and of the environment, the later taking
precedence. -/
def loadLayers (project : Option Path) : Run Config := do
  let user := (← get).home.join userFile
  let config ← if ← Run.pathExists user then load user else pure default
  match project with
  | none => applyWorld config
  | some directory =>
    let file := directory.join projectFile
    if ← Run.pathExists file then applyWorld (config.merge (← load file)) else applyWorld config

/-- Saves a configuration in the form that goes with the suffix of the path. -/
def save (config : Config) (path : Path) : Run Unit := do
  Run.writeText path []
  match form? path with
  | some .yaml => Run.writeText path (Yaml.render config.toJson).toList
  | some .json => Run.writeText path config.toJson.indented.toList
  | none => throw (.unsupportedFormat path.suffix)

end Config
end UsageOrder
