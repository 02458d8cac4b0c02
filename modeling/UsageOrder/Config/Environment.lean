import UsageOrder.Config.Basic

/-!
# Settings from the environment

| variable | effect |
|---|---|
| `STYLED_SORT_DRY_RUN`, `STYLED_SORT_VERBOSE` | `true`, `1` or `yes` set the flag, in any case of letters |
| `STYLED_SORT_MARKERS` | the marker names, with commas between them |
| `STYLED_SORT_SEPARATOR` | the number of line feeds between declarations |

A variable that is empty counts as one that is not set.
-/

namespace UsageOrder

/-- The variables of the environment. -/
abbrev Environment := List (String × String)

namespace Environment

/-- The text of a variable, empty if it is not set. -/
def text (environment : Environment) (name : String) : Text :=
  ((environment.lookup name).getD "").toList

/-- Whether a variable sets a flag. -/
def isSet (environment : Environment) (name : String) : Bool :=
  let word := (environment.text name).map Char.toLower
  word = "true".toList || word = "1".toList || word = "yes".toList

/-- The names between commas, without white space around them; empty ones are dropped. -/
def markers (text : Text) : List Json :=
  (((text.pieces ',').map Text.strip).filter fun name => !name.isEmpty).map fun name =>
    .str (String.ofList name)

end Environment

/-- A configuration after the environment was applied, with what was warned of on the way and the
fault that stopped it. -/
structure Applied where
  config : Config
  warning : Option String := none
  fault : Option Fault := none

namespace Config

/-- Applies the flags and the markers of the environment. -/
def applyFlags (config : Config) (environment : Environment) : Config :=
  let markers := environment.text "STYLED_SORT_MARKERS"
  { config with
    dryRun := if environment.isSet "STYLED_SORT_DRY_RUN" then .bool true else config.dryRun
    verbose := if environment.isSet "STYLED_SORT_VERBOSE" then .bool true else config.verbose
    rule :=
      if markers.isEmpty then config.rule
      else { config.rule with markerNames := .arr (Environment.markers markers) } }

/-- The greatest length that a text may have. -/
def longestText : Nat := 9223372036854775807

/-- Applies the environment. -/
def applyEnvironment (config : Config) (environment : Environment) : Applied :=
  let config := config.applyFlags environment
  let separator := environment.text "STYLED_SORT_SEPARATOR"
  if separator.isEmpty then { config }
  else if separator.all Text.isDigit then
    match Text.readNat? separator with
    | some n =>
      if longestText < n then { config, fault := some .tooLarge }
      else
        let text := String.ofList (List.replicate n '\n')
        { config := { config with rule := { config.rule with separator := .str text } } }
    | none => { config, fault := some .badValue }
  else
    { config
      warning := some ("Ignoring STYLED_SORT_SEPARATOR=" ++ (Json.str (String.ofList separator)).shown) }

end Config
end UsageOrder
