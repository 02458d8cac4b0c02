import UsageOrder.Project.Finder
import UsageOrder.Project.Process

/-!
# The check command

Checks every source file at a path, fixes them if asked to, prints what was found and sums it up.
A run that writes files opens a backup session first and ends it when all files are done.
-/

namespace UsageOrder
namespace CheckCommand

/-- What the check command is asked to do. -/
structure Request where
  path : Path
  recursive : Bool := false
  fix : Bool := false
  /-- The dump of the syntax tree, for a single file. -/
  dump : Option Path := none

/-- The store for the backups of a run that writes files. -/
def store (config : Config) : Run (Option BackupStore) := do
  if !config.backup.enabled.truthy || config.dryRun.truthy then return none
  else
    let settings := config.backup
    return some (← BackupStore.make settings.directory settings.compression settings.keepSessions)

/-- Prints the report on a file. -/
def printReport (config : Config) (report : Report) : Run Unit := do
  if report.status = .error then Run.printError report.text
  else
    if report.changes ≠ 0 && !config.quiet.truthy then Run.printLine report.text
    report.diagnostics.forM fun diagnostic =>
      Run.printLine (diagnostic.format report.path.toText ++
        (if diagnostic.fix.isSome then "" else " (no automatic fix)"))

/-- The status of a run over several files. -/
def overallStatus (errors diagnostics changes : Nat) : Status :=
  if errors ≠ 0 then .error
  else if diagnostics ≠ 0 then .problems
  else if changes ≠ 0 then .fixed
  else .clean

/-- The number of declarations moved in several files. -/
def totalChanges (reports : List Report) : Nat :=
  reports.foldl (fun total report => total + report.changes) 0

/-- The report on a run over several files. -/
def summary (path : Path) (reports : List Report) : Report :=
  let errors := (reports.filter fun report => decide (report.status = .error)).length
  let diagnostics := reports.flatMap Report.diagnostics
  let changes := totalChanges reports
  { path
    status := overallStatus errors diagnostics.length changes
    diagnostics
    changes
    errorMessage := if errors = 0 then none else some (toString errors ++ " files failed") }

/-- The line that sums up a run. -/
def summaryLine (reports : List Report) : String :=
  let errors := (reports.filter fun report => decide (report.status = .error)).length
  "\n" ++ toString reports.length ++ " files checked, " ++
    toString (reports.flatMap Report.diagnostics).length ++ " problems, " ++
    toString (totalChanges reports) ++ " fixes applied, " ++ toString errors ++ " errors"

/-- Processes files in a backup session of their own, if there is a store. -/
def processAll (config : Config) (request : Request) (files : List Path) : Run (List Report) := do
  let store ← if request.fix then store config else pure none
  if let some store := store then
    let _ ← store.startSession (.str "fix")
  let processor ← Run.ofExcept (Processor.make config store)
  let reports ← processor.processBatch files request.fix request.dump
  if let some store := store then
    let _ ← store.finalize
  return reports

/-- Runs with no backup session in progress, and leaves the one that was. -/
def inOwnSession {α : Type} (run : Run α) : Run α := do
  let outer := (← get).session
  modify fun world => { world with session := none }
  run.ensuring (modify fun world => { world with session := outer })

/-- Carries out a request. -/
def execute (config : Config) (request : Request) : Run Report := do
  let filter ← Run.ofExcept (SourceFilter.make config.extensions config.parser.astSuffix)
  let misused ← match request.dump with
    | some _ => do pure !(← Run.read fun world => world.isFile request.path)
    | none => pure false
  if misused then
    return Report.failed request.path (some "--ast can only be used with a single file")
  else
    let files ← Run.read (filter.find request.path request.recursive)
    if files.isEmpty then
      Run.warn ("No source files found in " ++ request.path.toText)
      return { path := request.path, status := .skipped }
    else
      let reports ← inOwnSession (processAll config request files)
      reports.forM (printReport config)
      if !config.quiet.truthy then Run.printLine (summaryLine reports)
      return summary request.path reports

end CheckCommand
end UsageOrder
