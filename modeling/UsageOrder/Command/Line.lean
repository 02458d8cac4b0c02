import UsageOrder.Command.Check
import UsageOrder.Command.Options
import UsageOrder.Config.Loading
import UsageOrder.Config.Validation

/-!
# The command line

The program has three commands behind its general options: `check` looks at files, `init` writes a
configuration file, and `backup` looks after the backup sessions.  `CommandLine.run` gives the exit
code.

| code | when |
|---|---|
| 0 | nothing to complain of |
| 1 | problems were found, a question was refused, or the run ended in a fault |
| 2 | the command line or the configuration is wrong |
-/

namespace UsageOrder
namespace CommandLine

/-- The name of the program. -/
def program : String := "styled-sort"

/-- The version of the program. -/
def version : String := "1.0.0"

/-- The commands of the program. -/
inductive Command where
  | check
  | init
  | backup
deriving DecidableEq

namespace Command

/-- The command with a name. -/
def ofName? (name : String) : Option Command :=
  if name = "check" then some .check
  else if name = "init" then some .init
  else if name = "backup" then some .backup
  else none

/-- The options of a command. -/
def options : Command → List OptionSpec
  | .check => [
    { long := "--recursive", letter := some 'r' }, { long := "--fix" }, { long := "--dry-run" },
    { long := "--no-backup" }, { long := "--ast", takesValue := true }, { long := "--help" }]
  | .init => [{ long := "--help" }]
  | .backup => [
    { long := "--sessions" }, { long := "--restore", takesValue := true }, { long := "--clean" },
    { long := "--help" }]

/-- The name of a command behind that of the program. -/
def fullName : Command → String
  | .check => program ++ " check"
  | .init => program ++ " init"
  | .backup => program ++ " backup"

/-- How a command is used. -/
def usage (command : Command) : String :=
  command.fullName ++ " [OPTIONS]" ++ (if command = .check then " PATH" else "")

end Command

/-- The options in front of the command. -/
def generalOptions : List OptionSpec := [
  { long := "--version" }, { long := "--config", letter := some 'c', takesValue := true },
  { long := "--verbose", letter := some 'v' }, { long := "--quiet", letter := some 'q' },
  { long := "--help" }]

/-- How the program is used. -/
def generalUsage : String := program ++ " [OPTIONS] COMMAND [ARGS]..."

/-- Tells how the program is used. -/
def generalHelp : Run Nat := do
  Run.printLine ("Usage: " ++ generalUsage)
  return 0

/-- Tells what is wrong with the command line. -/
def usageError (usage name : String) (fault : UsageFault) : Run Nat := do
  if !fault.isBare then
    Run.printError ("Usage: " ++ usage)
    Run.printError ("Try '" ++ name ++ " --help' for help.")
    Run.printError ""
  Run.printError ("Error: " ++ fault.message)
  return 2

/-- Whether a word can only name a directory: it ends in a slash, with or without a dot behind. -/
def namesDirectory (word : String) : Bool :=
  match (Text.pieces '/' word.toList).reverse with
  | [] :: _ :: _ => true
  | ['.'] :: _ :: _ => true
  | _ => false

/-- Whether a word names something that is there. -/
def wordExists (world : World) (word : String) : Except Fault Bool :=
  let path := Path.ofText word
  if path.hasNull then .error .badValue
  else .ok (word != "" &&
    if namesDirectory word then world.isDirectory path else (world.at? path).isSome)

/-- A word that names nothing that is there. -/
def missing? (world : World) (word : Option String) : Except Fault (Option String) := do
  match word with
  | some word => .ok (if ← wordExists world word then none else some word)
  | none => .ok none

/-- Whether a word starts neither with a letter nor with a digit, so that it cannot be meant as the
name of a command. -/
def isMarked (word : String) : Bool :=
  word.toList.head?.any fun c => decide (c.toNat < 128) && !c.isAlphanum

/-- The value that an option has last been given. -/
def valueOf? (options : List (String × String)) (name : String) : Option String :=
  options.reverse.lookup name

/-- Whether an option was given. -/
def isGiven (options : List (String × String)) (name : String) : Bool :=
  (options.lookup name).isSome

/-- Asks a question until it is answered with yes or no; no answer at all counts as no. -/
def ask (question : String) : List Text → Run (Bool × List Text)
  | [] => do
    Run.print (Text.uncoloured (question ++ " [y/N]:") ++ " \n")
    modify fun world => { world with unanswered := true }
    return (false, [])
  | line :: lines => do
    Run.print (Text.uncoloured (question ++ " [y/N]:") ++ " " ++ String.ofList line ++ "\n")
    let word := String.ofList (Text.strip (line.map Char.toLower))
    if word = "y" ∨ word = "yes" then return (true, lines)
    else if word = "n" ∨ word = "no" ∨ word = "" then return (false, lines)
    else
      Run.printLine "Error: invalid input"
      ask question lines

/-- Asks a question and goes on only if the answer is yes. -/
def confirmed (question : String) (go : Run Nat) : Run Nat := do
  let (answer, rest) ← ask question (← get).input
  modify fun world => { world with input := rest }
  if answer then go
  else
    Run.printError "Aborted!"
    return 1

/-- Checks files. -/
def runCheck (config : Config) (options : List (String × String)) (path : String) : Run Nat := do
  let config := { config with
    dryRun := if isGiven options "--dry-run" then .bool true else config.dryRun
    backup := if isGiven options "--no-backup" then
      { config.backup with enabled := .bool false } else config.backup }
  let complaints ← Run.ofExcept config.validate
  if !complaints.isEmpty then
    complaints.forM fun complaint => Run.printError ("❌ " ++ complaint)
    return 2
  else
    let report ← CheckCommand.execute config {
      path := Path.ofText path
      recursive := isGiven options "--recursive"
      fix := isGiven options "--fix"
      dump := (valueOf? options "--ast").map Path.ofText }
    return if report.isClean then 0 else 1

/-- Writes a configuration file in the working directory. -/
def runInit : Run Nat := do
  let path : Path := (Path.mk 1 (← get).workingDirectory).join Config.projectFile
  let write : Run Nat := do
    Config.default.save path
    Run.printLine ("Created configuration file: " ++ path.toText)
    Run.printLine "Edit this file to customize your settings."
    return 0
  if ← Run.pathExists path then confirmed (path.toText ++ " already exists. Overwrite?") write
  else write

/-- Prints what is told of a stored session. -/
def printSession (description : Json) : Run Unit := do
  let id ← Run.ofExcept (description.require "session_id")
  let timestamp ← Run.ofExcept (description.require "timestamp")
  Run.printLine ("  - " ++ id.plain ++ " (" ++ timestamp.plain ++ ")")
  match description.get? "files" with
  | none => return
  | some files =>
    let items ← Run.ofExcept files.items
    Run.printLine ("    Files: " ++ toString items.length)

/-- Lists the stored sessions. -/
def listSessions (store : BackupStore) : Run Nat := do
  let sessions ← store.sessions
  if sessions.isEmpty then Run.printLine "No backup sessions found."
  else
    Run.printLine ("Found " ++ toString sessions.length ++ " backup sessions:")
    sessions.forM printSession
  return 0

/-- Restores a session. -/
def restoreSession (store : BackupStore) (id : String) : Run Nat := do
  if ← store.restore id then
    Run.printLine ("Successfully restored session: " ++ id)
    return 0
  else
    Run.printError ("Failed to restore session: " ++ id)
    return 1

/-- Looks after the backup sessions. -/
def runBackup (config : Config) (options : List (String × String)) : Run Nat := do
  let settings := config.backup
  let store ← BackupStore.make settings.directory settings.compression settings.keepSessions
  let id := (valueOf? options "--restore").getD ""
  if isGiven options "--sessions" then listSessions store
  else if id ≠ "" then
    confirmed ("Restore all files from session " ++ id ++ "?") (restoreSession store id)
  else if isGiven options "--clean" then
    confirmed ("Remove backup sessions older than " ++ settings.keepSessions.plain ++
      " most recent?") do
      let removed ← store.removeOld
      Run.printLine ("Removed " ++ toString removed ++ " old backup sessions.")
      return 0
  else
    Run.printLine "Use --sessions, --restore, or --clean"
    return 0

/-- What is wrong with the values of a command's options and its other words. -/
def wordsFault? (world : World) (command : Command) (options : List (String × String))
    (words : List String) : Except Fault (Option UsageFault) := do
  match command with
  | .check =>
    match ← missing? world (valueOf? options "--ast"), words with
    | some word, _ => .ok (some (.pathNotFound "'--ast'" word))
    | none, [] => .ok (some .missingPath)
    | none, path :: rest =>
      match ← missing? world (some path) with
      | some path => .ok (some (.pathNotFound "'PATH'" path))
      | none => .ok (if rest.isEmpty then none else some (.extraArguments rest))
  | _ => .ok (if words.isEmpty then none else some (.extraArguments words))

/-- Carries out a command with its words. -/
def runCommand (config : Config) (command : Command) (words : List String) : Run Nat := do
  let wrong := usageError command.usage command.fullName
  match OptionSpec.parse command.options true words with
  | .error fault => wrong fault
  | .ok (options, words) =>
    if isGiven options "--help" then
      Run.printLine ("Usage: " ++ command.usage)
      return 0
    else
      match ← Run.read fun world => wordsFault? world command options words with
      | some fault => wrong fault
      | none =>
        match command with
        | .check => runCheck config options (words.head?.getD "")
        | .init => runInit
        | .backup => runBackup config options

/-- The configuration that the general options ask for. -/
def configuration (options : List (String × String)) : Run Config := do
  let config ← match valueOf? options "--config" with
    | some file => Config.load (Path.ofText file)
    | none => Config.loadLayers (some (Path.mk 1 (← get).workingDirectory))
  let verbose := isGiven options "--verbose" || config.verbose.truthy
  return { config with
    verbose := if verbose then .bool true else config.verbose
    quiet := if isGiven options "--quiet" then .bool true else config.quiet }

/-- Carries out the command that stands behind the general options. -/
def dispatch (options : List (String × String)) (words : List String) : Run Nat := do
  let wrong := usageError generalUsage program
  match ← Run.read fun world => missing? world (valueOf? options "--config"), words with
  | some word, _ => wrong (.pathNotFound "'--config' / '-c'" word)
  | none, [] => wrong .missingCommand
  | none, name :: rest =>
    match Command.ofName? name with
    | none => if isMarked name then generalHelp else wrong (.noSuchCommand name)
    | some command => runCommand (← configuration options) command rest

/-- Runs the program with the words of its command line and gives the exit code. -/
def run (words : List String) : Run Nat := do
  match OptionSpec.parse generalOptions false words with
  | .error fault => usageError generalUsage program fault
  | .ok (options, rest) =>
    match options.find? fun option => option.1 = "--version" || option.1 = "--help" with
    | some ("--version", _) =>
      Run.printLine (program ++ ", version " ++ version)
      return 0
    | some _ => generalHelp
    | none =>
      if words.isEmpty then generalHelp
      else
        match ← (dispatch options rest).outcome with
        | .ok code => return code
        | .error _ =>
          Run.complain "Unexpected error"
          return 1

end CommandLine
end UsageOrder
