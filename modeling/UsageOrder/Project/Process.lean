import UsageOrder.Project.Backup
import UsageOrder.Project.Report

/-!
# Checking and fixing files

The syntax tree of a file comes from a dump that is named, from a dump beside the file, or from the
parser, in this order.  A dump has to describe the present text.

Fixes are applied pass by pass.  With a parser every pass is followed by a new check of the fixed
text, through a copy beside the file; without one the tree fits only the text before the first pass,
so there is one pass and what is left is reported with its old positions.  The file is written once,
after the last pass.
-/

namespace UsageOrder

/-- The settings by which files are checked and fixed, and where they are backed up. -/
structure Processor where
  config : Config
  strategy : UsageStrategy
  store : Option BackupStore

/-- What the passes of a fix leave: the text, the diagnostics and the number of fixes applied. -/
structure FixState where
  text : Text
  diagnostics : List Diagnostic
  applied : Nat

/-- The source of a file and of the dump of its tree. -/
def Source.ofFiles (path dump : Path) : Run Source := do
  let text ← Run.readText path
  let json ← Run.readText dump
  Run.ofExcept (Source.ofJson (some path) text json)

namespace Processor

/-- The processor for a configuration. -/
def make (config : Config) (store : Option BackupStore) : Except Fault Processor := do
  .ok ⟨config, ← UsageStrategy.ofJson config.rule.usageStrategy, store⟩

/-- The path of the dump beside a file. -/
def sidecar (processor : Processor) (path : Path) : Except Fault Path :=
  match processor.config.parser.astSuffix with
  | .str suffix => path.withName (path.name ++ suffix)
  | _ => .error .unsuitable

/-- Whether a parser is configured. -/
def hasParser (processor : Processor) : Bool := processor.config.parser.command.truthy

/-- The words of the parser command for a file. -/
def parserCommand (processor : Processor) (path : Path) : Except Fault (List String) := do
  let words ← processor.config.parser.command.items
  let words ← words.mapM fun word =>
    match word with
    | .str s => .ok s
    | _ => .error .unsuitable
  .ok (words ++ [path.toText])

/-- The source of a text whose tree the parser gives. -/
def parseFile (processor : Processor) (path : Path) (text : Text) : Run Source := do
  let command ← Run.ofExcept (processor.parserCommand path)
  match ← Run.callParser command path with
  | .notStarted reason => throw (.system reason)
  | .refused => throw .badValue
  | .garbled => throw .notText
  | .finished output complaint code =>
    if code ≠ 0 then throw (.parserFailed command code complaint)
    else Run.ofExcept (Source.ofJson (some path) text output.toList)

/-- The dump that describes a file: the named one, or else the one beside it. -/
def dump? (processor : Processor) (path : Path) (named : Option Path) : Run (Option Path) := do
  match named with
  | some dump => return some dump
  | none =>
    let beside ← Run.ofExcept (processor.sidecar path)
    if ← Run.pathExists beside then return some beside else return none

/-- The source of the present text of a file. -/
def loadSource (processor : Processor) (path : Path) (text : Text) (named : Option Path) :
    Run Source := do
  match ← processor.dump? path named with
  | some dump =>
    let source ← Run.ofExcept (Source.ofJson (some path) text (← Run.readText dump))
    Run.ofExcept source.verify
    return source
  | none =>
    if processor.hasParser then processor.parseFile path text
    else
      let beside ← Run.ofExcept (processor.sidecar path)
      throw (.tree (.missing path.toText beside.name))

/-- The diagnostics of a source; an order that cannot be resolved is logged. -/
def check (processor : Processor) (source : Source) : Run (List Diagnostic) := do
  let findings ← Run.ofExcept (processor.config.rule.findings processor.strategy source)
  if let some warning := findings.warning then Run.warn warning
  Run.ofExcept (findings.located source.text)

/-- The path of the copy beside a file through which a fixed text is parsed. -/
def scratch (path : Path) : Except Fault Path :=
  path.withName ("." ++ path.name ++ ".styled-sort" ++ path.suffix)

/-- The source of a fixed text, parsed through a copy beside the file. -/
def parseText (processor : Processor) (path : Path) (text : Text) : Run Source := do
  let copy ← Run.ofExcept (scratch path)
  Run.writeText copy text
  let source ← (processor.parseFile copy text).ensuring do
    if ← Run.pathExists copy then Run.removeFile copy
  return { source with path := some path }

/-- The diagnostics that are left when some fixes were applied and the tree is not known anew. -/
def leftover (diagnostics applied : List Diagnostic) : List Diagnostic :=
  (diagnostics.filter fun diagnostic =>
    !applied.any fun other => other.name == diagnostic.name).map Diagnostic.outdated

/-- Applies fixes in at most `left` passes. -/
def fixPasses (processor : Processor) (path : Path) : Nat → FixState → Run FixState
  | 0, state => return state
  | left + 1, state => do
    let (text, applied) := applyFixes state.text state.diagnostics
    let total := state.applied + applied.length
    if applied.isEmpty then return ⟨text, state.diagnostics, total⟩
    else if !processor.hasParser then return ⟨text, leftover state.diagnostics applied, total⟩
    else
      let diagnostics ← processor.check (← processor.parseText path text)
      if diagnostics.isEmpty then return ⟨text, [], total⟩
      else processor.fixPasses path left ⟨text, diagnostics, total⟩

/-- Removes the dump beside a file that no longer describes it. -/
def discardSidecar (processor : Processor) (path : Path) : Run Unit := do
  let beside ← Run.ofExcept (processor.sidecar path)
  if ← Run.pathExists beside then
    Run.removeFile beside
    Run.warn ("Removed " ++ beside.name ++ ": it described " ++ path.name ++
      " before fixing; dump the AST again before the next check")

/-- Backs up a file and writes its fixed text. -/
def writeFixed (processor : Processor) (path : Path) (text : Text) : Run (Option Path) := do
  let backup ← match processor.store with
    | some store => store.backupFile path
    | none => pure none
  Run.writeText path text
  processor.discardSidecar path
  return backup

/-- Applies fixes to a file and writes the result. -/
def fixFile (processor : Processor) (path : Path) (source : Source)
    (diagnostics : List Diagnostic) : Run Report := do
  let limit ← Run.ofExcept (Order.passLimit processor.config.fix.maxFixPasses)
  let state ← processor.fixPasses path limit ⟨source.text, diagnostics, 0⟩
  if state.applied = 0 then
    return { path, status := .problems, diagnostics := state.diagnostics }
  else
    let backup ←
      if processor.config.dryRun.truthy then pure none else processor.writeFixed path state.text
    return { path, status := .fixed, diagnostics := state.diagnostics, changes := state.applied,
             backup }

/-- Checks a file, and fixes it if asked to; a fault of any kind ends the run. -/
def processStrictly (processor : Processor) (path : Path) (fix : Bool) (dump : Option Path) :
    Run Report := do
  let text ← Run.readText path
  let source ← processor.loadSource path text dump
  let diagnostics ← processor.check source
  if diagnostics.isEmpty then return { path, status := .clean }
  else if !fix then return { path, status := .problems, diagnostics }
  else processor.fixFile path source diagnostics

/-- Checks a file, and fixes it if asked to; a fault that concerns the file alone is reported. -/
def processFile (processor : Processor) (path : Path) (fix : Bool) (dump : Option Path) :
    Run Report := do
  match ← (processor.processStrictly path fix dump).outcome with
  | .ok report => return report
  | .error fault =>
    if fault.isReported then
      Run.complain ("Error processing " ++ path.toText ++ ": " ++ fault.message)
      return Report.failed path (some fault.message)
    else throw fault

/-- Checks files one after the other. -/
def processBatch (processor : Processor) (paths : List Path) (fix : Bool) (dump : Option Path) :
    Run (List Report) :=
  paths.mapM fun path => processor.processFile path fix dump

end Processor
end UsageOrder
