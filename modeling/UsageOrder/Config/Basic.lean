import UsageOrder.Json.Access
import UsageOrder.Rule

/-!
# Configuration

A configuration has four sections besides a few general settings.  Its values are not checked when
they are read: a setting keeps whatever value it was given until it is used.

| operation | rule |
|---|---|
| `Config.ofJson` | the defaults, with the settings that a value gives; an unknown key in a section is refused |
| `Config.merge` | a setting that differs from its default takes the place of the one in the base |
| `Config.toJson` | every setting with its value |

Values may be nested to any depth: the limit that an interpreter sets to nested calls is left out.
-/

namespace UsageOrder

/-- How fixes are applied. -/
structure FixSettings where
  maxFixPasses : Json

/-- Where syntax trees come from. -/
structure ParserSettings where
  /-- The words of a command that prints the tree of the file named last. -/
  command : Json
  /-- The suffix of a dump of the tree beside the source file. -/
  astSuffix : Json

/-- How files are kept before they are changed. -/
structure BackupSettings where
  enabled : Json
  directory : Json
  compression : Json
  keepSessions : Json

/-- A configuration. -/
structure Config where
  dryRun : Json
  verbose : Json
  quiet : Json
  extensions : Json
  rule : Rule
  fix : FixSettings
  parser : ParserSettings
  backup : BackupSettings
  /-- The file that the configuration was read from. -/
  configFile : Option String

/-- Sets each of some members in turn, where an unknown key is refused. -/
def Json.assign {σ : Type} (set : σ → String → Json → Option σ) (base : σ) (value : Json) :
    Except Fault σ :=
  match value with
  | .obj members => members.foldlM (fun s member =>
      match set s member.1 member.2 with
      | some s => .ok s
      | none => .error .unsuitable) base
  | _ => .error .unsuitable

/-- The value of a setting after a merge: the other one if it differs from the default. -/
def Json.override (default base other : Json) : Json := if other.same default then base else other

namespace Rule

/-- Sets the setting with a key. -/
def set? (rule : Rule) (key : String) (value : Json) : Option Rule :=
  if key = "marker_names" then some { rule with markerNames := value }
  else if key = "separator" then some { rule with separator := value }
  else if key = "usage_strategy" then some { rule with usageStrategy := value }
  else if key = "max_passes" then some { rule with maxPasses := value }
  else none

/-- The default settings with those that a value gives. -/
def ofJson (value : Json) : Except Fault Rule := value.assign set? default

/-- The settings with their values. -/
def toJson (rule : Rule) : Json := .obj [
  ("marker_names", rule.markerNames), ("separator", rule.separator),
  ("usage_strategy", rule.usageStrategy), ("max_passes", rule.maxPasses)]

/-- Settings that differ from their defaults take the place of those in the base. -/
def merge (base other : Rule) : Rule where
  markerNames := default.markerNames.override base.markerNames other.markerNames
  separator := default.separator.override base.separator other.separator
  usageStrategy := default.usageStrategy.override base.usageStrategy other.usageStrategy
  maxPasses := default.maxPasses.override base.maxPasses other.maxPasses

end Rule

namespace FixSettings

/-- The settings where none are given. -/
def default : FixSettings where
  maxFixPasses := .int 10

/-- Sets the setting with a key. -/
def set? (fix : FixSettings) (key : String) (value : Json) : Option FixSettings :=
  if key = "max_fix_passes" then some { fix with maxFixPasses := value } else none

/-- The default settings with those that a value gives. -/
def ofJson (value : Json) : Except Fault FixSettings := value.assign set? default

/-- The settings with their values. -/
def toJson (fix : FixSettings) : Json := .obj [("max_fix_passes", fix.maxFixPasses)]

/-- Settings that differ from their defaults take the place of those in the base. -/
def merge (base other : FixSettings) : FixSettings where
  maxFixPasses := default.maxFixPasses.override base.maxFixPasses other.maxFixPasses

end FixSettings

namespace ParserSettings

/-- The settings where none are given. -/
def default : ParserSettings where
  command := .arr []
  astSuffix := .str ".estree.json"

/-- Sets the setting with a key. -/
def set? (parser : ParserSettings) (key : String) (value : Json) : Option ParserSettings :=
  if key = "command" then some { parser with command := value }
  else if key = "ast_suffix" then some { parser with astSuffix := value }
  else none

/-- The default settings with those that a value gives. -/
def ofJson (value : Json) : Except Fault ParserSettings := value.assign set? default

/-- The settings with their values. -/
def toJson (parser : ParserSettings) : Json := .obj [
  ("command", parser.command), ("ast_suffix", parser.astSuffix)]

/-- Settings that differ from their defaults take the place of those in the base. -/
def merge (base other : ParserSettings) : ParserSettings where
  command := default.command.override base.command other.command
  astSuffix := default.astSuffix.override base.astSuffix other.astSuffix

end ParserSettings

namespace BackupSettings

/-- The settings where none are given. -/
def default : BackupSettings where
  enabled := .bool true
  directory := .str ".backups"
  compression := .bool true
  keepSessions := .int 10

/-- Sets the setting with a key. -/
def set? (backup : BackupSettings) (key : String) (value : Json) : Option BackupSettings :=
  if key = "enabled" then some { backup with enabled := value }
  else if key = "directory" then some { backup with directory := value }
  else if key = "compression" then some { backup with compression := value }
  else if key = "keep_sessions" then some { backup with keepSessions := value }
  else none

/-- The default settings with those that a value gives. -/
def ofJson (value : Json) : Except Fault BackupSettings := value.assign set? default

/-- The settings with their values. -/
def toJson (backup : BackupSettings) : Json := .obj [
  ("enabled", backup.enabled), ("directory", backup.directory),
  ("compression", backup.compression), ("keep_sessions", backup.keepSessions)]

/-- Settings that differ from their defaults take the place of those in the base. -/
def merge (base other : BackupSettings) : BackupSettings where
  enabled := default.enabled.override base.enabled other.enabled
  directory := default.directory.override base.directory other.directory
  compression := default.compression.override base.compression other.compression
  keepSessions := default.keepSessions.override base.keepSessions other.keepSessions

end BackupSettings

namespace Config

/-- The configuration where none is given. -/
def default : Config where
  dryRun := .bool false
  verbose := .bool false
  quiet := .bool false
  extensions := .arr [.str ".js", .str ".jsx", .str ".ts", .str ".tsx"]
  rule := .default
  fix := .default
  parser := .default
  backup := .default
  configFile := none

/-- The setting that a value gives under a key, or else the given one. -/
def setting {σ : Type} (data : Json) (key : String) (read : Json → Except Fault σ) (base : σ) :
    Except Fault σ := do
  if ← data.mentions key then read (← data.require key) else .ok base

/-- The default configuration with the settings that a value gives. -/
def ofJson (data : Json) : Except Fault Config := do
  let dryRun ← setting data "dry_run" .ok default.dryRun
  let verbose ← setting data "verbose" .ok default.verbose
  let quiet ← setting data "quiet" .ok default.quiet
  let extensions ← setting data "extensions" .ok default.extensions
  let rule ← setting data "rule" Rule.ofJson default.rule
  let fix ← setting data "fix" FixSettings.ofJson default.fix
  let parser ← setting data "parser" ParserSettings.ofJson default.parser
  let backup ← setting data "backup" BackupSettings.ofJson default.backup
  .ok { dryRun, verbose, quiet, extensions, rule, fix, parser, backup, configFile := none }

/-- The settings with their values. -/
def toJson (config : Config) : Json := .obj [
  ("dry_run", config.dryRun), ("verbose", config.verbose), ("quiet", config.quiet),
  ("extensions", config.extensions), ("rule", config.rule.toJson), ("fix", config.fix.toJson),
  ("parser", config.parser.toJson), ("backup", config.backup.toJson)]

/-- A flag that is set once either side has set it. -/
def mergeFlag (base other : Json) : Json := if other.truthy then .bool true else base

/-- The file of the later configuration, if it was read from one with a name. -/
def mergeFile (base other : Option String) : Option String :=
  match other with
  | some file => if file = "" then base else some file
  | none => base

/-- Merges another configuration into a base; the other one takes precedence. -/
def merge (base other : Config) : Config where
  dryRun := mergeFlag base.dryRun other.dryRun
  verbose := mergeFlag base.verbose other.verbose
  quiet := mergeFlag base.quiet other.quiet
  extensions := default.extensions.override base.extensions other.extensions
  rule := base.rule.merge other.rule
  fix := base.fix.merge other.fix
  parser := base.parser.merge other.parser
  backup := base.backup.merge other.backup
  configFile := mergeFile base.configFile other.configFile

end Config
end UsageOrder
