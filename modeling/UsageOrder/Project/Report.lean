import UsageOrder.Files.Path
import UsageOrder.Patch.Diagnostic

/-!
# Reports on files

What came of checking a file: its status, the diagnostics that are left in it and the number of
declarations that were moved.
-/

namespace UsageOrder

/-- What came of checking a file. -/
inductive Status where
  /-- The declarations are in the desired order. -/
  | clean
  /-- There are diagnostics, and nothing was written. -/
  | problems
  /-- At least one fix was applied. -/
  | fixed
  /-- The file could not be checked. -/
  | error
  /-- There was nothing to check. -/
  | skipped
deriving DecidableEq, Repr

namespace Status

/-- The word for a status. -/
def word : Status → String
  | .clean => "clean"
  | .problems => "problems"
  | .fixed => "fixed"
  | .error => "error"
  | .skipped => "skipped"

/-- All statuses. -/
def all : List Status := [.clean, .problems, .fixed, .error, .skipped]

/-- The status with a word. -/
def ofWord? (word : String) : Option Status := all.find? fun status => decide (status.word = word)

/-- The wording of a report: the name of the file, how many declarations were moved, how many
problems are left, and the message of an error. -/
def wording (status : Status) (name moved left message : String) : String :=
  match status with
  | .error => "✗ " ++ name ++ ": " ++ message
  | .skipped => "⊝ " ++ name ++ ": Skipped"
  | .clean => "= " ++ name ++ ": Declarations in order"
  | .fixed => "✓ " ++ name ++ ": " ++ moved ++ " declarations moved, " ++ left ++ " problems left"
  | .problems => "! " ++ name ++ ": " ++ left ++ " problems"

end Status

/-- The report on a file. -/
structure Report where
  path : Path
  status : Status
  diagnostics : List Diagnostic := []
  changes : Nat := 0
  errorMessage : Option String := none
  /-- The copy of the file from before it was changed. -/
  backup : Option Path := none

namespace Report

/-- The report on a file that could not be checked. -/
def failed (path : Path) (message : Option String) : Report :=
  { path, status := .error, errorMessage := message }

/-- Whether there is neither an error nor a diagnostic left. -/
def isClean (report : Report) : Bool :=
  decide (report.status ≠ .error) && report.diagnostics.isEmpty

/-- The wording of a report. -/
def text (report : Report) : String :=
  report.status.wording report.path.name (toString report.changes)
    (toString report.diagnostics.length) (report.errorMessage.getD "None")

end Report
end UsageOrder
